import Mathlib.Data.String.Basic
import Nsb.Lib.SortedSearch
import Nsb.Generator.DieLookup
import Nsb.Generator.Resolve

/-!
# The prefix test on names

`read_patch` and `get_dio` of `patch_symbol.py` pass over an object of the debug
information unless its name is a prefix of the name of some symbol.  The name of
a symbol may go on behind that of its object, with a version for example.  The
names are sorted, and `is_prefix` looks at the one at which `bisect.bisect_left`
ends.

`bisectLeft` is the loop of the library.  On sorted names it ends at the place
that `bisect` describes.
-/

namespace Nsb

open SortedSearch (bisectBetween bisectBetween_eq_findIdx upward_of_sorted find?_isPrefix_iff)

/-! ## The bisection -/

/-- `bisect.bisect_left`. -/
def bisectLeft (a : List String) (x : String) : Nat :=
  bisectBetween (fun s => ¬ s < x) a 0 a.length

theorem bisect_eq_findIdx {α : Type} (before : α → Bool) (a : List α) :
    bisect before a = a.findIdx before := by
  induction a with
  | nil => rfl
  | cons x a induction =>
      rw [bisect] at induction
      rw [bisect, List.takeWhile_cons, List.findIdx_cons]
      cases before x with
      | true => rfl
      | false => simp [induction]

/-- The order of the texts is that of their characters. -/
theorem sorted_toList {names : List String} (hs : names.Pairwise (· ≤ ·)) :
    names.Pairwise fun s s' => s.toList ≤ s'.toList :=
  hs.imp String.le_iff_toList_le.mp

theorem decide_le_eq (n : String) :
    (fun s : String => decide (n ≤ s)) = fun s => decide (n.toList ≤ s.toList) :=
  funext fun _ => decide_eq_decide.mpr String.le_iff_toList_le

/-- On sorted names the loop of the library ends at the place of `bisect`. -/
theorem bisectLeft_eq_bisect {names : List String} (hs : names.Pairwise (· ≤ ·)) (n : String) :
    bisectLeft names n = bisect (fun s => n ≤ s) names := by
  have htest : (fun s : String => decide (¬ s < n)) = fun s => decide (n ≤ s) :=
    funext fun _ => decide_eq_decide.mpr not_lt
  rw [bisectLeft, htest, bisect_eq_findIdx]
  refine bisectBetween_eq_findIdx ?_ 0 names.length (Nat.zero_le _) List.findIdx_le_length le_rfl
  rw [decide_le_eq]
  exact upward_of_sorted (sorted_toList hs) n.toList

/-! ## The test -/

theorem isPrefix_iff_find? (names : List String) (n : String) :
    isPrefix names n = true ↔
      ∃ s, names.find? (fun s => n.toList ≤ s.toList) = some s ∧
        n.toList <+: s.toList := by
  rw [isPrefix, getElem?_bisect, decide_le_eq]
  cases names.find? fun s => n.toList ≤ s.toList with
  | none => simp
  | some s => simp

theorem isPrefix_iff_of_sorted {names : List String} (hs : names.Pairwise (· ≤ ·)) (n : String) :
    isPrefix names n = true ↔ ∃ s ∈ names, n.toList <+: s.toList := by
  rw [isPrefix_iff_find?]
  exact find?_isPrefix_iff (sorted_toList hs) n.toList

theorem sorted_insertionSort (names : List String) :
    (names.insertionSort (· ≤ ·)).Pairwise (· ≤ ·) :=
  List.pairwise_insertionSort (· ≤ ·) names

theorem isPrefix_insertionSort {names : List String} {n : String} :
    isPrefix (names.insertionSort (· ≤ ·)) n = true ↔ ∃ s ∈ names, n.toList <+: s.toList := by
  rw [isPrefix_iff_of_sorted (sorted_insertionSort names)]
  simp only [List.mem_insertionSort]

/-- The test that `read_patch` and `get_dio` make on the sorted names: the place
is where the loop of the library ends, and the name there has the prefix when any
name has. -/
theorem isPrefix_sort_iff_exists_prefix (names : List String) (n : String) :
    bisectLeft (names.insertionSort (· ≤ ·)) n =
        bisect (fun s => n ≤ s) (names.insertionSort (· ≤ ·)) ∧
      (isPrefix (names.insertionSort (· ≤ ·)) n = true ↔
        ∃ s ∈ names, n.toList <+: s.toList) :=
  ⟨bisectLeft_eq_bisect (sorted_insertionSort names) n, isPrefix_insertionSort⟩

end Nsb
