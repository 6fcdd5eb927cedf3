import Mathlib.Data.List.Basic

/-!
# Comparing all but some fields

Two sequences are gone over together, and the elements inside of some fields are left
out.  `Fields.mismatch` does it in one pass: it has the length of the field that begins
at each position and remembers where the last field that began ends.

When it finds nothing, the sequences agree outside of the fields (`mismatch_sound`).
The other way the fields must not overlap, since a field that begins inside of another
one makes the pass forget where the outer one ends (`mismatch_eq_none_iff`).
-/

namespace Fields

variable {α : Type*} [DecidableEq α] (len : Nat → Nat)

/-- The position lies in a field. -/
def Covered (i : Nat) : Prop := ∃ j, j ≤ i ∧ i < j + len j

/-- No field begins inside of another one. -/
def Apart : Prop := ∀ i j, i < j → len j ≠ 0 → i + len i ≤ j

/-- The end of the last field that began up to a position. -/
def lastEnd (i next : Nat) : Nat := if len i ≠ 0 then i + len i else next

/-- The first difference from a position on, where `next` is the end of the last field
that began in front of it. -/
def mismatch : Nat → Nat → List (α × α) → Option Nat
  | _, _, [] => none
  | i, next, (x, y) :: l =>
      if i < lastEnd len i next then mismatch (i + 1) (lastEnd len i next) l
      else if x ≠ y then some i
      else mismatch (i + 1) (lastEnd len i next) l

variable {len}

/-- What lies in front of `next` is covered. -/
theorem covered_of_lt_lastEnd {i next : Nat} (h : ∀ k, i ≤ k → k < next → Covered len k) :
    ∀ k, i ≤ k → k < lastEnd len i next → Covered len k := by
  intro k hk hlt
  rw [lastEnd] at hlt
  split at hlt
  · exact ⟨i, hk, hlt⟩
  · exact h k hk hlt

theorem mismatch_sound_from {i next : Nat} {l : List (α × α)}
    (hnext : ∀ k, i ≤ k → k < next → Covered len k) (h : mismatch len i next l = none) {k : Nat}
    {p : α × α} (hp : l[k]? = some p) (hk : ¬ Covered len (i + k)) : p.1 = p.2 := by
  induction l generalizing i next k with
  | nil => cases hp
  | cons q l induction =>
      have hcovered := covered_of_lt_lastEnd hnext
      have hrest : ∀ j, i + 1 ≤ j → j < lastEnd len i next → Covered len j :=
        fun j hj => hcovered j (Nat.le_of_succ_le hj)
      rw [mismatch] at h
      cases k with
      | zero =>
          cases hp
          rw [if_neg fun hlt => hk (hcovered i (Nat.le_refl i) hlt)] at h
          split at h
          next => cases h
          next heq => exact not_not.mp heq
      | succ k =>
          have hk' : ¬ Covered len (i + 1 + k) := by
            rwa [Nat.add_assoc, Nat.add_comm 1 k]
          split at h
          next => exact induction hrest h hp hk'
          next =>
            split at h
            next => cases h
            next => exact induction hrest h hp hk'

/-- When no difference is found, the sequences agree outside of the fields. -/
theorem mismatch_sound {l : List (α × α)} (h : mismatch len 0 0 l = none) {k : Nat} {p : α × α}
    (hp : l[k]? = some p) (hk : ¬ Covered len k) : p.1 = p.2 :=
  mismatch_sound_from (fun _ _ hlt => absurd hlt (Nat.not_lt_zero _)) h hp
    (by rwa [Nat.zero_add])

/-- `next` ends all the fields that have begun. -/
def Ends (len : Nat → Nat) (i next : Nat) : Prop := ∀ j k, j < i → i ≤ k → k < j + len j → k < next

theorem Ends.step (hapart : Apart len) {i next : Nat} (h : Ends len i next) :
    (Covered len i → i < lastEnd len i next) ∧ Ends len (i + 1) (lastEnd len i next) := by
  rw [lastEnd]
  split
  next hlen =>
    refine ⟨fun _ => Nat.lt_add_of_pos_right (Nat.pos_of_ne_zero hlen), fun j k hj hk hlt => ?_⟩
    rcases Nat.lt_succ_iff_lt_or_eq.mp hj with hj | rfl
    · have := hapart j i hj hlen
      omega
    · exact hlt
  next hlen =>
    rw [not_not] at hlen
    refine ⟨fun ⟨j, hj, hlt⟩ => ?_, fun j k hj hk hlt => ?_⟩
    · rcases Nat.lt_or_eq_of_le hj with hj | rfl
      · exact h j i hj (Nat.le_refl i) hlt
      · omega
    · rcases Nat.lt_succ_iff_lt_or_eq.mp hj with hj | rfl
      · exact h j k hj (Nat.le_of_succ_le hk) hlt
      · omega

theorem mismatch_complete_from (hapart : Apart len) {i next : Nat} {l : List (α × α)}
    (hends : Ends len i next)
    (h : ∀ k p, l[k]? = some p → ¬ Covered len (i + k) → p.1 = p.2) :
    mismatch len i next l = none := by
  induction l generalizing i next with
  | nil => rfl
  | cons q l induction =>
      obtain ⟨hin, hends'⟩ := hends.step hapart
      have hrest : mismatch len (i + 1) (lastEnd len i next) l = none := by
        refine induction hends' fun k p hp hk => h (k + 1) p hp ?_
        rwa [Nat.add_comm k 1, ← Nat.add_assoc]
      rw [mismatch]
      split
      next => exact hrest
      next hout =>
        rw [if_neg (not_not.mpr (h 0 q rfl fun hc => hout (hin hc)))]
        exact hrest

/-- Fields that do not overlap: no difference is found exactly when the sequences agree
outside of them. -/
theorem mismatch_eq_none_iff (hapart : Apart len) {l : List (α × α)} :
    mismatch len 0 0 l = none ↔ ∀ k p, l[k]? = some p → ¬ Covered len k → p.1 = p.2 := by
  constructor
  · exact fun h k p hp hk => mismatch_sound h hp hk
  · intro h
    refine mismatch_complete_from hapart (fun j _ hj => absurd hj (Nat.not_lt_zero j)) ?_
    intro k p hp hk
    exact h k p hp (by rwa [Nat.zero_add] at hk)

end Fields
