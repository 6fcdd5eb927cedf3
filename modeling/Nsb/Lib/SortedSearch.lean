import Mathlib.Data.List.Lex
import Mathlib.Data.List.Sort

/-!
# Searching in sorted lists

*Bisection.*  `bisectBetween` halves a range of places until it is empty.  The
test has to hold from some place on, and the range has to have that place in it.
Then the search ends there (`bisectBetween_eq_findIdx`), however often an element
is repeated.

*Prefixes.*  In the lexicographic order the lists with a common prefix stand
together, and none of them is in front of the prefix
(`isPrefix_of_le_of_le`).  So one element of a sorted list decides whether any of
them has the prefix: the first one that is not in front of it
(`find?_isPrefix_iff`).
-/

namespace SortedSearch

variable {α β : Type*}

/-! ## Bisection -/

/-- Halve the places from `lo` to `hi`.  An element that passes the test is at or
behind the place that is searched. -/
def bisectBetween (reached : β → Bool) (a : List β) (lo hi : Nat) : Nat :=
  if lo < hi then
    if (a[(lo + hi) / 2]?).any reached then bisectBetween reached a lo ((lo + hi) / 2)
    else bisectBetween reached a ((lo + hi) / 2 + 1) hi
  else lo
termination_by hi - lo

/-- The test holds behind every element it holds for. -/
def Upward (reached : β → Bool) (a : List β) : Prop :=
  a.Pairwise fun x y => reached x = true → reached y = true

theorem findIdx_le_of_reached {reached : β → Bool} {a : List β} {i : Nat} (hi : i < a.length)
    (h : reached a[i] = true) : a.findIdx reached ≤ i := by
  by_contra hlt
  have hnot := List.not_of_lt_findIdx (Nat.lt_of_not_le hlt)
  rw [h] at hnot
  cases hnot

theorem lt_findIdx_of_not_reached {reached : β → Bool} {a : List β} (hup : Upward reached a)
    {i : Nat} (hi : i < a.length) (h : reached a[i] ≠ true) : i < a.findIdx reached := by
  refine List.lt_findIdx_of_not hi fun j hj => ?_
  intro hreached
  rcases Nat.lt_or_eq_of_le hj with hlt | rfl
  · exact h (List.pairwise_iff_getElem.mp hup j i (by omega) hi hlt hreached)
  · exact h hreached

/-- The invariant of the bisection is that the place is between the two ends. -/
theorem bisectBetween_eq_findIdx {reached : β → Bool} {a : List β} (hup : Upward reached a)
    (lo hi : Nat) (hlo : lo ≤ a.findIdx reached) (hhi : a.findIdx reached ≤ hi)
    (hlen : hi ≤ a.length) : bisectBetween reached a lo hi = a.findIdx reached := by
  fun_induction bisectBetween reached a lo hi with
  | case1 lo hi hlt hreached induction =>
      have hmid : (lo + hi) / 2 < a.length := by omega
      rw [List.getElem?_eq_getElem hmid, Option.any_some] at hreached
      exact induction hlo (findIdx_le_of_reached hmid hreached) (by omega)
  | case2 lo hi hlt hnot induction =>
      have hmid : (lo + hi) / 2 < a.length := by omega
      rw [List.getElem?_eq_getElem hmid, Option.any_some] at hnot
      exact induction (lt_findIdx_of_not_reached hup hmid hnot) hhi hlen
  | case3 lo hi hge => omega

/-! ## Prefixes -/

section Prefixes

variable [LinearOrder α]

theorem le_of_isPrefix {l m : List α} (h : l <+: m) : l ≤ m :=
  le_of_not_gt h.le

theorem cons_le_cons_iff {x y : α} {l m : List α} :
    x :: l ≤ y :: m ↔ x < y ∨ x = y ∧ l ≤ m := by
  rw [le_iff_lt_or_eq, le_iff_lt_or_eq, List.cons_lt_cons_iff, List.cons_eq_cons, or_assoc,
    ← and_or_left]

/-- What is between a list and one of its extensions is an extension too. -/
theorem isPrefix_of_le_of_le : ∀ {l m r : List α}, l <+: r → l ≤ m → m ≤ r → l <+: m
  | [], _, _, _, _, _ => List.nil_prefix
  | x :: l, [], _, _, hlm, _ => absurd (List.nil_lt_cons x l) hlm.not_gt
  | x :: l, _ :: _, [], hp, _, _ => absurd (List.prefix_nil.mp hp) (List.cons_ne_nil x l)
  | x :: l, y :: m, z :: r, hp, hlm, hmr => by
      obtain ⟨rfl, hp'⟩ := List.cons_prefix_cons.mp hp
      rcases cons_le_cons_iff.mp hlm with hxy | ⟨rfl, hlm'⟩
      · -- the element would have to be behind the one of the prefix and not behind it
        rcases cons_le_cons_iff.mp hmr with hyx | ⟨rfl, _⟩
        · exact absurd hyx hxy.asymm
        · exact absurd hxy (lt_irrefl _)
      · rcases cons_le_cons_iff.mp hmr with hyx | ⟨_, hmr'⟩
        · exact absurd hyx (lt_irrefl _)
        · exact List.cons_prefix_cons.mpr ⟨rfl, isPrefix_of_le_of_le hp' hlm' hmr'⟩

variable {key : β → List α} {bs : List β}

theorem upward_of_sorted (hs : bs.Pairwise fun b c => key b ≤ key c) (l : List α) :
    Upward (fun b => l ≤ key b) bs :=
  hs.imp fun hle h => decide_eq_true ((of_decide_eq_true h).trans hle)

/-- The first key that is not in front of a list is at most every key that
extends the list. -/
theorem find?_le_of_mem (hs : bs.Pairwise fun b c => key b ≤ key c) {l : List α} {b c : β}
    (hfind : bs.find? (fun b => l ≤ key b) = some c) (hb : b ∈ bs) (hle : l ≤ key b) :
    key c ≤ key b := by
  obtain ⟨_, front, back, rfl, hfront⟩ := List.find?_eq_some_iff_append.mp hfind
  rcases List.mem_append.mp hb with hb | hb
  · have hnot := hfront b hb
    simp [hle] at hnot
  · rcases List.mem_cons.mp hb with rfl | hb
    · exact le_rfl
    · exact (List.pairwise_cons.mp (List.pairwise_append.mp hs).2.1).1 b hb

/-- A list is a prefix of some key when it is one of the first key that is not
in front of it. -/
theorem find?_isPrefix_iff (hs : bs.Pairwise fun b c => key b ≤ key c) (l : List α) :
    (∃ b, bs.find? (fun b => l ≤ key b) = some b ∧ l <+: key b) ↔
      ∃ b ∈ bs, l <+: key b := by
  constructor
  · rintro ⟨b, hfind, hp⟩
    exact ⟨b, List.mem_of_find?_eq_some hfind, hp⟩
  · rintro ⟨b, hb, hp⟩
    cases hfind : bs.find? (fun b => l ≤ key b) with
    | none =>
        have hnot := List.find?_eq_none.mp hfind b hb
        exact absurd (decide_eq_true (le_of_isPrefix hp)) hnot
    | some c =>
        have hlc := List.find?_some hfind
        refine ⟨c, rfl, isPrefix_of_le_of_le hp (of_decide_eq_true hlc) ?_⟩
        exact find?_le_of_mem hs hfind hb (le_of_isPrefix hp)

end Prefixes

end SortedSearch
