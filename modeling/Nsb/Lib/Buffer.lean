import Nsb.Lib.Bytes

/-!
# Buffers

A buffer is a function from offsets to bytes.  It has no length of its own: what
lies behind the structure that a program keeps in it is whatever the memory holds
there.  `Buffer.slice` reads a block of bytes and `Buffer.put` stores one.
`Buffer.get` and `Buffer.set` do the same for a little-endian integer field of a
given width in bits.

A field reads back as it was stored (`Buffer.get_set`), a store leaves the fields
apart from it alone (`Buffer.get_put_apart`), and a field depends on its own
bytes only (`Buffer.get_congr`).  A `RecordLayout` is a record of a fixed size with
these three properties.  `RecordLayout.array` reads an array of records, and
`RecordLayout.elems` one whose length is a field of the buffer.
-/

/-- Bytes by offset. -/
abbrev Buffer := Nat → Byte

namespace Buffer

variable {b b' : Buffer} {off o n w : Nat}

/-- The `n` bytes at `off`. -/
def slice (b : Buffer) (off n : Nat) : List Byte := (List.range n).map fun i => b (off + i)

/-- Store bytes at `off`. -/
def put (b : Buffer) (off : Nat) (l : List Byte) : Buffer :=
  fun i => if i < off then b i else l.getD (i - off) (b i)

/-- The buffer from an offset on. -/
def drop (b : Buffer) (off : Nat) : Buffer := fun i => b (off + i)

@[simp] theorem length_slice (b : Buffer) (off n : Nat) : (b.slice off n).length = n := by
  simp [slice]

theorem slice_congr (h : ∀ i, off ≤ i → i < off + n → b i = b' i) :
    b.slice off n = b'.slice off n := by
  refine List.map_congr_left fun i hi => h _ (Nat.le_add_right ..) ?_
  have := List.mem_range.mp hi
  omega

theorem slice_append (b : Buffer) (off m n : Nat) :
    b.slice off (m + n) = b.slice off m ++ b.slice (off + m) n := by
  simp only [slice, List.range_add, List.map_append, List.map_map]
  congr 1
  exact List.map_congr_left fun i _ => congrArg b (Nat.add_assoc off m i).symm

theorem slice_drop (b : Buffer) (k off n : Nat) : (b.drop k).slice off n = b.slice (k + off) n :=
  List.map_congr_left fun i _ => congrArg b (Nat.add_assoc k off i).symm

/-! ## Stores -/

theorem put_inside {l : List Byte} {i : Nat} (h : i < l.length) : b.put off l (off + i) = l[i] := by
  rw [put, if_neg (Nat.not_lt.mpr (Nat.le_add_right ..)), Nat.add_sub_cancel_left]
  simp [h]

theorem put_outside {l : List Byte} {i : Nat} (h : i < off ∨ off + l.length ≤ i) :
    b.put off l i = b i := by
  rw [put]
  split
  · rfl
  · rw [List.getD_eq_getElem?_getD, List.getElem?_eq_none (by omega), Option.getD_none]

/-- A store does not spread a difference between two buffers. -/
theorem put_congr {l : List Byte} {i : Nat} (h : b i = b' i) : b.put off l i = b'.put off l i := by
  rw [put, put, h]

/-- Below a message that was stored at the front, the old contents do not show. -/
theorem put_front_congr {l : List Byte} {i : Nat} (h : i < l.length) :
    b.put 0 l i = b'.put 0 l i := by
  have hi := Nat.zero_add i
  rw [← hi, put_inside h, put_inside h]

/-- A block reads back as it was stored. -/
theorem slice_put_self (b : Buffer) (off : Nat) (l : List Byte) :
    (b.put off l).slice off l.length = l := by
  apply List.ext_getElem
  · simp
  · intro i h₁ h₂
    simp only [slice, List.getElem_map, List.getElem_range]
    exact put_inside h₂

/-- A store does not change a block apart from it. -/
theorem slice_put_apart {l : List Byte} (h : o + n ≤ off ∨ off + l.length ≤ o) :
    (b.put off l).slice o n = b.slice o n :=
  slice_congr fun i _ _ => put_outside (by omega)

/-- The bytes inside a message that was stored at the front. -/
theorem slice_put_front {l : List Byte} (h : o + n ≤ l.length) :
    (b.put 0 l).slice o n = (l.drop o).take n := by
  apply List.ext_getElem
  · rw [length_slice, List.length_take, List.length_drop]
    omega
  · intro i h₁ h₂
    rw [length_slice] at h₁
    have hi : o + i < l.length := by omega
    have hput : b.put 0 l (0 + (o + i)) = l[o + i] := put_inside hi
    rw [Nat.zero_add] at hput
    simp only [slice, List.getElem_map, List.getElem_range, List.getElem_take, List.getElem_drop]
    exact hput

/-! ## Fields -/

/-- The number in the `n` bytes at `off`. -/
def num (b : Buffer) (off n : Nat) : Nat := Bytes.leNat (b.slice off n)

/-- The integer of `w` bits at `off`. -/
def get (w : Nat) (b : Buffer) (off : Nat) : BitVec w := BitVec.ofNat w (b.num off (w / 8))

/-- Store an integer of `w` bits at `off`. -/
def set (b : Buffer) (off : Nat) (x : BitVec w) : Buffer :=
  b.put off (Bytes.leBytes (w / 8) x.toNat)

theorem num_lt (b : Buffer) (off n : Nat) : b.num off n < 256 ^ n := by
  have h := Bytes.leNat_lt (b.slice off n)
  rwa [length_slice] at h

theorem num_congr (h : ∀ i, off ≤ i → i < off + n → b i = b' i) : b.num off n = b'.num off n :=
  congrArg Bytes.leNat (slice_congr h)

/-- A number is determined by its low and its high bytes. -/
theorem num_add (b : Buffer) (off m n : Nat) :
    b.num off (m + n) = b.num off m + 256 ^ m * b.num (off + m) n := by
  rw [num, slice_append, Bytes.leNat_append, length_slice]
  rfl

theorem num_put_apart {l : List Byte} (h : o + n ≤ off ∨ off + l.length ≤ o) :
    (b.put off l).num o n = b.num o n :=
  congrArg Bytes.leNat (slice_put_apart h)

theorem num_zero (h : ∀ i, off ≤ i → i < off + n → b i = 0) : b.num off n = 0 := by
  have hslice : b.slice off n = List.replicate n 0 := by
    rw [slice_congr h, slice, List.map_const', List.length_range]
  rw [num, hslice, Bytes.leNat_replicate_zero]

/-- A buffer of zeros. -/
def zeros : Buffer := fun _ => 0

theorem num_zeros (off n : Nat) : zeros.num off n = 0 := num_zero fun _ _ _ => rfl

theorem num_drop (b : Buffer) (k off n : Nat) : (b.drop k).num off n = b.num (k + off) n :=
  congrArg Bytes.leNat (slice_drop b k off n)

theorem get_congr (h : ∀ i, off ≤ i → i < off + w / 8 → b i = b' i) : b.get w off = b'.get w off :=
  congrArg (BitVec.ofNat w) (num_congr h)

theorem pow_bytes {w : Nat} (hw : 8 ∣ w) : 256 ^ (w / 8) = 2 ^ w := by
  rw [show 256 = 2 ^ 8 by rfl, ← Nat.pow_mul, Nat.mul_div_cancel' hw]

/-- The low part of a field is a field. -/
theorem setWidth_get {v : Nat} (b : Buffer) (off : Nat) (hv : 8 ∣ v) (hvw : v ≤ w) :
    (b.get w off).setWidth v = b.get v off := by
  obtain ⟨k, hk⟩ := Nat.exists_eq_add_of_le (Nat.div_le_div_right (c := 8) hvw)
  rw [get, get, BitVec.setWidth_ofNat_of_le hvw, hk, num_add, pow_bytes hv]
  apply BitVec.eq_of_toNat_eq
  rw [BitVec.toNat_ofNat, BitVec.toNat_ofNat, Nat.add_mul_mod_self_left]

/-- A field reads back as it was stored. -/
theorem get_set (b : Buffer) (off : Nat) (x : BitVec w) (hw : 8 ∣ w) :
    (b.set off x).get w off = x := by
  have hself := slice_put_self b off (Bytes.leBytes (w / 8) x.toNat)
  rw [Bytes.length_leBytes] at hself
  rw [get, set, num, hself, Bytes.leNat_leBytes, pow_bytes hw]
  simp

theorem get_put_apart {l : List Byte} (h : o + w / 8 ≤ off ∨ off + l.length ≤ o) :
    (b.put off l).get w o = b.get w o := by
  rw [get, num, slice_put_apart h]
  rfl

theorem get_set_apart {v : Nat} {x : BitVec v} (h : o + w / 8 ≤ off ∨ off + v / 8 ≤ o) :
    (b.set off x).get w o = b.get w o :=
  get_put_apart (by rwa [Bytes.length_leBytes])

/-- The number of a whole field is the integer in it. -/
theorem toNat_get (b : Buffer) (off : Nat) (hw : 8 ∣ w) :
    (b.get w off).toNat = b.num off (w / 8) := by
  have hlt := num_lt b off (w / 8)
  rw [pow_bytes hw] at hlt
  rw [get, BitVec.toNat_ofNat, Nat.mod_eq_of_lt hlt]

end Buffer

/-! ## Records -/

/-- A record of `size` bytes: it reads back as it was written, writing touches its
own bytes only, and reading looks at its own bytes only. -/
structure RecordLayout (α : Type) where
  size : Nat
  read : Buffer → Nat → α
  write : Buffer → Nat → α → Buffer
  read_write : ∀ b off a, read (write b off a) off = a
  write_outside : ∀ b off a i, i < off ∨ off + size ≤ i → write b off a i = b i
  read_congr : ∀ b b' off, (∀ i, off ≤ i → i < off + size → b i = b' i) → read b off = read b' off

namespace RecordLayout

variable {α : Type} (L : RecordLayout α) {b b' : Buffer} {base n count : Nat}

/-- An integer of `w` bits. -/
def int (w : Nat) (hw : 8 ∣ w) : RecordLayout (BitVec w) where
  size := w / 8
  read b off := b.get w off
  write b off x := b.set off x
  read_write b off x := Buffer.get_set b off x hw
  write_outside b off x i h := Buffer.put_outside (by rwa [Bytes.length_leBytes])
  read_congr b b' off h := Buffer.get_congr h

/-- The `n` records from `base` on. -/
def array (b : Buffer) (base n : Nat) : List α :=
  (List.range n).map fun i => L.read b (base + L.size * i)

/-- The records from `base` on, as many as the field at `count` says. -/
def elems (b : Buffer) (count base : Nat) : List α := L.array b base (b.get 64 count).toNat

@[simp] theorem length_array (b : Buffer) (base n : Nat) : (L.array b base n).length = n := by
  simp [array]

theorem getElem?_array {i : Nat} (h : i < n) :
    (L.array b base n)[i]? = some (L.read b (base + L.size * i)) := by
  simp [array, h]

theorem array_congr (h : ∀ i, base ≤ i → i < base + L.size * n → b i = b' i) :
    L.array b base n = L.array b' base n := by
  refine List.map_congr_left fun i hi => L.read_congr b b' _ fun j hj₁ hj₂ => h j (by omega) ?_
  have hin : L.size * i + L.size ≤ L.size * n := by
    rw [← Nat.mul_succ]
    exact Nat.mul_le_mul_left _ (List.mem_range.mp hi)
  omega

/-- Write one record behind an array. -/
theorem array_write (b : Buffer) (base n : Nat) (a : α) :
    L.array (L.write b (base + L.size * n) a) base (n + 1) = L.array b base n ++ [a] := by
  rw [array, List.range_succ, List.map_append, List.map_singleton, L.read_write]
  congr 1
  exact L.array_congr fun i _ hi => L.write_outside _ _ _ _ (.inl hi)

theorem elems_congr (hc : ∀ i, count ≤ i → i < count + 8 → b i = b' i)
    (h : ∀ i, base ≤ i → i < base + L.size * (b.get 64 count).toNat → b i = b' i) :
    L.elems b count base = L.elems b' count base := by
  rw [elems, elems, ← Buffer.get_congr (w := 64) hc]
  exact L.array_congr h

/-- Add a record to an array and count it. -/
def push (count base : Nat) (a : α) (b : Buffer) : Buffer :=
  (L.write b (base + L.size * (b.get 64 count).toNat) a).set count (b.get 64 count + 1)

theorem push_count (a : α) (b : Buffer) :
    (L.push count base a b).get 64 count = b.get 64 count + 1 :=
  Buffer.get_set _ _ _ (by decide)

theorem push_count_toNat (a : α) (hn : (b.get 64 count).toNat + 1 < 2 ^ 64) :
    ((L.push count base a b).get 64 count).toNat = (b.get 64 count).toNat + 1 := by
  rw [push_count, BitVec.toNat_add]
  exact Nat.mod_eq_of_lt hn

/-- The array has the record at its end afterwards. -/
theorem elems_push (a : α) (hcount : count + 8 ≤ base) (hn : (b.get 64 count).toNat + 1 < 2 ^ 64) :
    L.elems (L.push count base a b) count base = L.elems b count base ++ [a] := by
  rw [elems, push_count_toNat _ _ hn, elems, ← array_write]
  refine L.array_congr fun i hi _ => Buffer.put_outside (.inr ?_)
  rw [Bytes.length_leBytes]
  omega

end RecordLayout
