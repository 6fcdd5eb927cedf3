import Nsb.Lib.Memory

/-!
# Numbers as bytes

The little-endian reading of a list of bytes, `Bytes.leNat`, and the list of the
low bytes of a number, `Bytes.leBytes`.  The bytes of a number that fits have
that number (`Bytes.leNat_leBytes`), and the number in front of a longer list
does not depend on the rest.

`Bytes.signed` is the 64-bit value a field of up to eight bytes stands for when
it is sign-extended.
-/

namespace Bytes

/-- The number whose bytes are `l`, the lowest first. -/
def leNat : List Byte → Nat
  | [] => 0
  | b :: l => b.toNat + 256 * leNat l

/-- The `n` low bytes of a number, the lowest first. -/
def leBytes : Nat → Nat → List Byte
  | 0, _ => []
  | n + 1, x => BitVec.ofNat 8 x :: leBytes n (x / 256)

@[simp] theorem length_leBytes (n x : Nat) : (leBytes n x).length = n := by
  induction n generalizing x with
  | zero => rfl
  | succ n induction => simp [leBytes, induction]

theorem leNat_lt (l : List Byte) : leNat l < 256 ^ l.length := by
  induction l with
  | nil => simp [leNat]
  | cons b l induction =>
      have hb := b.isLt
      rw [leNat, List.length_cons, Nat.pow_succ]
      omega

theorem leNat_append (l l' : List Byte) :
    leNat (l ++ l') = leNat l + 256 ^ l.length * leNat l' := by
  induction l with
  | nil => simp [leNat]
  | cons b l induction =>
      rw [List.cons_append, leNat, leNat, induction, List.length_cons, Nat.pow_succ, Nat.mul_add,
        Nat.mul_assoc, Nat.mul_left_comm 256, Nat.add_assoc]

theorem leNat_replicate_zero (n : Nat) : leNat (List.replicate n 0) = 0 := by
  induction n with
  | zero => rfl
  | succ n induction => rw [List.replicate_succ, leNat, induction]; rfl

/-- The bytes of a number read back as its remainder. -/
theorem leNat_leBytes (n x : Nat) : leNat (leBytes n x) = x % 256 ^ n := by
  induction n generalizing x with
  | zero => simp [leBytes, leNat, Nat.mod_one]
  | succ n induction =>
      rw [leBytes, leNat, induction, Nat.pow_succ, Nat.mul_comm (256 ^ n), Nat.mod_mul,
        BitVec.toNat_ofNat]

/-- Bytes come back from their number. -/
theorem leBytes_leNat (l : List Byte) : leBytes l.length (leNat l) = l := by
  induction l with
  | nil => rfl
  | cons b l induction =>
      have hlow : BitVec.ofNat 8 (b.toNat + 256 * leNat l) = b := by
        apply BitVec.eq_of_toNat_eq
        simp [BitVec.toNat_ofNat]
        omega
      have hhigh : (b.toNat + 256 * leNat l) / 256 = leNat l := by
        have := b.isLt
        omega
      rw [List.length_cons, leBytes, leNat, hlow, hhigh, induction]

theorem getElem_leBytes (n x i : Nat) (h : i < (leBytes n x).length) :
    (leBytes n x)[i] = BitVec.ofNat 8 (x / 256 ^ i) := by
  induction n generalizing x i with
  | zero => simp [leBytes] at h
  | succ n induction =>
      cases i with
      | zero => simp [leBytes]
      | succ i =>
          simp only [leBytes, List.getElem_cons_succ]
          rw [induction, Nat.div_div_eq_div_mul, Nat.pow_succ, Nat.mul_comm 256]

/-- The first bytes of a number are the bytes of its remainder. -/
theorem take_leBytes (k n x : Nat) : (leBytes n x).take k = leBytes (min k n) x := by
  induction n generalizing k x with
  | zero => simp [leBytes]
  | succ n induction =>
      cases k with
      | zero => simp [leBytes]
      | succ k => rw [leBytes, List.take_succ_cons, induction, Nat.succ_min_succ, leBytes]

/-! ## Sign extension -/

/-- The 64-bit value of a field, sign-extended. -/
def signed (l : List Byte) : BitVec 64 :=
  (BitVec.ofNat (8 * l.length) (leNat l)).signExtend 64

/-- A field of eight bytes is the value itself. -/
theorem signed_eight {l : List Byte} (h : l.length = 8) : signed l = BitVec.ofNat 64 (leNat l) := by
  simp only [signed]
  rw [show 8 * l.length = 64 by omega]
  exact BitVec.signExtend_eq _

end Bytes
