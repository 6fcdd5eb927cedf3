import Mathlib.Data.BitVec

/-!
# Byte memory

A memory is a function from 64-bit addresses to bytes.  `Mem.read` and
`Mem.write` move a block of bytes at once.  Addresses wrap around, so a block
may run over the top of the address space.  A byte belongs to the block of `n`
bytes at `a` exactly when its distance from `a`, taken modulo `2 ^ 64`, is
below `n`.

`Apart` says that two blocks share no byte.  It is decidable, since it compares
the two distances of the block addresses with the block lengths.  A write is
seen by a read of the same block (`Mem.read_write_self`) and not seen by a read
of a block apart from it (`Mem.read_write_apart`).
-/

/-- A 64-bit address. -/
abbrev Addr := BitVec 64

/-- A byte. -/
abbrev Byte := BitVec 8

/-- A byte-addressed memory. -/
abbrev Mem := Addr → Byte

/-- The blocks `[a, a + n)` and `[b, b + k)` share no byte. -/
def Apart (a : Addr) (n : Nat) (b : Addr) (k : Nat) : Prop :=
  n ≤ (b - a).toNat ∧ k ≤ (a - b).toNat

instance (a : Addr) (n : Nat) (b : Addr) (k : Nat) : Decidable (Apart a n b k) :=
  inferInstanceAs (Decidable (_ ∧ _))

theorem Apart.symm {a b : Addr} {n k : Nat} (h : Apart a n b k) : Apart b k a n :=
  ⟨h.2, h.1⟩

/-- A block that ends where another one starts, or below. -/
theorem Apart.of_le {a b : Addr} {n k : Nat} (h : a.toNat + n ≤ b.toNat) (hn : 0 < n)
    (hk : b.toNat + k ≤ 2 ^ 64) : Apart a n b k := by
  constructor <;> bv_omega

/-- Blocks inside of blocks that are apart. -/
theorem Apart.mono {a b : Addr} {n n' k k' : Nat} (h : Apart a n b k) (hn : n' ≤ n) (hk : k' ≤ k) :
    Apart a n' b k' :=
  ⟨Nat.le_trans hn h.1, Nat.le_trans hk h.2⟩

/-- A byte outside of a block. -/
theorem Apart.byte {a x : Addr} {n : Nat} (hn : 0 < n) (h : ¬ (x - a).toNat < n) :
    Apart a n x 1 := by
  constructor <;> bv_omega

/-- No byte lies in both of two blocks that are apart. -/
theorem Apart.outside {a b x : Addr} {n k : Nat} (h : Apart a n b k)
    (hx : (x - b).toNat < k) : ¬ (x - a).toNat < n := by
  obtain ⟨h1, h2⟩ := h
  bv_omega

/-- Two blocks moved by one distance. -/
theorem Apart.add_left {a b : Addr} {n k : Nat} (h : Apart a n b k) (c : Addr) :
    Apart (c + a) n (c + b) k := by
  obtain ⟨h1, h2⟩ := h
  constructor <;> bv_omega

/-! ## Blocks of bytes -/

/-- The `n` bytes at `a`. -/
def Mem.read (m : Mem) (a : Addr) (n : Nat) : Vector Byte n :=
  Vector.ofFn fun i => m (a + BitVec.ofNat 64 i)

/-- A block of one byte. -/
theorem Mem.eq_of_read_byte {m m' : Mem} {x : Addr} (h : m.read x 1 = m'.read x 1) :
    m x = m' x := by
  have hget := congrArg (fun v : Vector Byte 1 => v[0]) h
  simpa [Mem.read] using hget

/-- Replace the `n` bytes at `a`. -/
def Mem.write {n : Nat} (m : Mem) (a : Addr) (v : Vector Byte n) : Mem :=
  fun x => if h : (x - a).toNat < n then v.get ⟨(x - a).toNat, h⟩ else m x

theorem Mem.write_outside {n : Nat} (m : Mem) (a : Addr) (v : Vector Byte n) {x : Addr}
    (h : ¬ (x - a).toNat < n) : m.write a v x = m x := dif_neg h

theorem Mem.offset_toNat (a : Addr) {i : Nat} (hi : i < 2 ^ 64) :
    (a + BitVec.ofNat 64 i - a).toNat = i := by
  bv_omega

/-- A block reads back as it was written. -/
theorem Mem.read_write_self {n : Nat} (m : Mem) (a : Addr) (v : Vector Byte n)
    (hn : n ≤ 2 ^ 64) : (m.write a v).read a n = v := by
  apply Vector.ext
  intro i hi
  have hoff : (a + BitVec.ofNat 64 i - a).toNat = i := Mem.offset_toNat a (by omega)
  simp only [Mem.read, Mem.write, Vector.getElem_ofFn]
  rw [dif_pos (by omega)]
  simp only [hoff]
  rfl

/-- The front of a block reads back as the front of what was written. -/
theorem Mem.read_write_front {n k : Nat} (m : Mem) (a : Addr) (v : Vector Byte n) (hk : k ≤ n)
    (hn : n ≤ 2 ^ 64) : ((m.write a v).read a k).toList = v.toList.take k := by
  have hself := congrArg Vector.toList (Mem.read_write_self m a v hn)
  rw [← hself]
  apply List.ext_getElem
  · simp [hk]
  · intro i h₁ h₂
    simp [Mem.read]

/-- Every address is its distance behind another one. -/
theorem Mem.add_distance (a x : Addr) : a + BitVec.ofNat 64 (x - a).toNat = x := by
  bv_omega

/-- A write does not change a block apart from it. -/
theorem Mem.read_write_apart {n k : Nat} (m : Mem) {a b : Addr} (v : Vector Byte n)
    (h : Apart a n b k) : (m.write a v).read b k = m.read b k := by
  apply Vector.ext
  intro i hi
  have hk : k ≤ 2 ^ 64 := by have := h.2; have := (a - b).isLt; omega
  have hoff : (b + BitVec.ofNat 64 i - b).toNat = i := Mem.offset_toNat b (by omega)
  simp only [Mem.read, Vector.getElem_ofFn]
  exact Mem.write_outside m a v (h.outside (by omega))

/-- A block depends on its bytes. -/
theorem Mem.read_congr {m m' : Mem} {a : Addr} {n : Nat} (hn : n ≤ 2 ^ 64)
    (h : ∀ x, (x - a).toNat < n → m x = m' x) : m.read a n = m'.read a n := by
  apply Vector.ext
  intro i hi
  simp only [Mem.read, Vector.getElem_ofFn]
  exact h _ (by rwa [Mem.offset_toNat a (Nat.lt_of_lt_of_le hi hn)])

/-! ## Whole ranges -/

/-- Replace the `n` bytes at `a` by the values of `f` at their distance from
`a`. -/
def Mem.fill (m : Mem) (a : Addr) (n : Nat) (f : BitVec 64 → Byte) : Mem :=
  fun x => if (x - a).toNat < n then f (x - a) else m x

/-- Filling a range does not change a block apart from it. -/
theorem Mem.read_fill_apart {n k : Nat} (m : Mem) {a b : Addr} (f : BitVec 64 → Byte)
    (h : Apart a n b k) : (m.fill a n f).read b k = m.read b k := by
  apply Vector.ext
  intro i hi
  have hk : k ≤ 2 ^ 64 := by have := h.2; have := (a - b).isLt; omega
  have hoff : (b + BitVec.ofNat 64 i - b).toNat = i := Mem.offset_toNat b (by omega)
  simp only [Mem.read, Vector.getElem_ofFn]
  exact if_neg (h.outside (by omega))
