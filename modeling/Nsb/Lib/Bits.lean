import Mathlib.Data.BitVec

/-!
# Masks and bytes

C code takes numbers apart with masks: `x & m` and `x & ~m`.  For a mask of the
low `k` bits these are the remainder and the multiple of `2 ^ k` below `x`.  The
bytes of a number in a buffer make up the number again.
-/

namespace Bits

variable {w : Nat}

/-- The two parts of a number make up the number. -/
theorem and_not_add_and (x m : BitVec w) : (x &&& ~~~ m) + (x &&& m) = x := by
  rw [BitVec.add_eq_or_of_and_eq_zero]
  · ext i hi
    simp only [BitVec.getElem_or, BitVec.getElem_and, BitVec.getElem_not]
    cases x[i] <;> cases m[i] <;> rfl
  · ext i hi
    simp only [BitVec.getElem_and, BitVec.getElem_not, BitVec.getElem_zero]
    cases x[i] <;> cases m[i] <;> rfl

/-- A number has no bit outside a mask exactly when the mask keeps it. -/
theorem and_not_eq_zero (x m : BitVec w) : x &&& ~~~ m = 0 ↔ x &&& m = x := by
  have hadd := and_not_add_and x m
  constructor
  · intro h
    rwa [h, zero_add] at hadd
  · intro h
    rw [h] at hadd
    exact add_eq_right.mp hadd

/-- The low `k` bits. -/
theorem toNat_and_low {x m : BitVec w} {k : Nat} (hm : m.toNat = 2 ^ k - 1) :
    (x &&& m).toNat = x.toNat % 2 ^ k := by
  rw [BitVec.toNat_and, hm, Nat.and_two_pow_sub_one_eq_mod]

/-- The number without its low `k` bits. -/
theorem toNat_and_high {x m : BitVec w} {k : Nat} (hm : m.toNat = 2 ^ k - 1) :
    (x &&& ~~~ m).toNat = x.toNat - x.toNat % 2 ^ k := by
  have hadd := congrArg BitVec.toNat (and_not_add_and x m)
  have hle : (x &&& ~~~ m).toNat ≤ x.toNat := by
    rw [BitVec.toNat_and]
    exact Nat.and_le_left
  have hlow : (x &&& m).toNat ≤ x.toNat := by
    rw [BitVec.toNat_and]
    exact Nat.and_le_left
  rw [BitVec.toNat_add] at hadd
  rw [← toNat_and_low hm]
  have hlt := x.isLt
  by_cases hov : (x &&& ~~~ m).toNat + (x &&& m).toNat < 2 ^ w
  · rw [Nat.mod_eq_of_lt hov] at hadd
    omega
  · -- then both parts would have to be the whole number
    rw [Nat.mod_eq_sub_mod (by omega), Nat.mod_eq_of_lt (by omega)] at hadd
    omega

/-! ## Bytes -/

/-- The four bytes of a number make up the number. -/
theorem append_bytes (x : BitVec 32) :
    x.extractLsb' 24 8 ++ x.extractLsb' 16 8 ++ x.extractLsb' 8 8 ++ x.extractLsb' 0 8 = x := by
  have h1 : x.extractLsb' 24 8 ++ x.extractLsb' 16 8 = x.extractLsb' 16 16 :=
    BitVec.extractLsb'_append_extractLsb'_eq_extractLsb' rfl
  have h2 : x.extractLsb' 16 16 ++ x.extractLsb' 8 8 = x.extractLsb' 8 24 :=
    BitVec.extractLsb'_append_extractLsb'_eq_extractLsb' rfl
  have h3 : x.extractLsb' 8 24 ++ x.extractLsb' 0 8 = x.extractLsb' 0 32 :=
    BitVec.extractLsb'_append_extractLsb'_eq_extractLsb' rfl
  rw [h1, h2, h3, BitVec.extractLsb'_eq_self]

end Bits
