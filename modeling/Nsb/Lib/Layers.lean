import Mathlib.Data.List.Basic

/-!
# Layers

A layer covers some keys, and a list of layers is read from its end: at a key the
last layer that covers it counts (`Layers.top`).  Two lists may have their layers
in a different order and still agree at every key.  `Layers.SameOrder` says that
at every key the covering layers come in the same order in both.

A new layer may be put anywhere into the first list if it overlaps with no layer
behind its place (`SameOrder.insert`), and layers may be taken out of both lists
(`SameOrder.filter`).  `top_remove` says which layer counts when one is taken out.
-/

namespace Layers

variable {M K : Type*} (has : M → K → Bool)

/-- The last layer that covers a key. -/
def top (k : K) (ms : List M) : Option M := (ms.filter (has · k)).getLast?

/-- At every key the layers are in the same order. -/
def SameOrder (as ms : List M) : Prop := ∀ k, as.filter (has · k) = ms.filter (has · k)

variable {has} {k : K} {as ms front back : List M} {m : M}

theorem SameOrder.refl (ms : List M) : SameOrder has ms ms := fun _ => rfl

theorem SameOrder.top (h : SameOrder has as ms) (k : K) : top has k as = top has k ms :=
  congrArg List.getLast? (h k)

/-- A new layer on top of the second list may be anywhere in the first one that
nothing behind overlaps with it. -/
theorem SameOrder.insert (h : SameOrder has (front ++ back) ms)
    (hback : ∀ a ∈ back, ∀ k, ¬ (has a k = true ∧ has m k = true)) :
    SameOrder has (front ++ m :: back) (ms ++ [m]) := by
  intro k
  have hk := h k
  rw [List.filter_append] at hk
  rw [List.filter_append, List.filter_append, ← hk]
  cases hm : has m k with
  | false =>
      rw [List.filter_cons_of_neg (by simp [hm]), List.filter_cons_of_neg (by simp [hm])]
      simp
  | true =>
      have hnone : back.filter (has · k) = [] :=
        List.filter_eq_nil_iff.mpr fun a ha hak => hback a ha k ⟨hak, hm⟩
      rw [List.filter_cons_of_pos (by exact hm), List.filter_cons_of_pos (by exact hm), hnone,
        List.append_nil]
      rfl

theorem SameOrder.filter (h : SameOrder has as ms) (q : M → Bool) :
    SameOrder has (as.filter q) (ms.filter q) := by
  intro k
  have hcomm : ∀ l : List M, (l.filter q).filter (has · k) = (l.filter (has · k)).filter q := by
    intro l
    simp only [List.filter_filter, Bool.and_comm]
  rw [hcomm, hcomm, h k]

/-! ## The top layer -/

theorem mem_of_top (h : top has k ms = some m) : m ∈ ms ∧ has m k = true :=
  List.mem_filter.mp (List.mem_of_getLast? h)

/-- The top layer covers the key, and no layer behind it does. -/
theorem top_eq_some_iff : top has k ms = some m ↔
    has m k = true ∧ ∃ front back, ms = front ++ m :: back ∧ ∀ a ∈ back, has a k = false := by
  rw [top, List.getLast?_filter, List.find?_eq_some_iff_append]
  refine and_congr_right fun _ => ⟨?_, ?_⟩
  · rintro ⟨as, bs, hms, has⟩
    refine ⟨bs.reverse, as.reverse, ?_, fun a ha => by simpa using has a (List.mem_reverse.mp ha)⟩
    rw [← List.reverse_reverse ms, hms]
    simp
  · rintro ⟨front, back, rfl, hback⟩
    refine ⟨back.reverse, front.reverse, by simp, fun a ha => ?_⟩
    rw [hback a (List.mem_reverse.mp ha)]
    rfl

theorem top_eq_none_iff : top has k ms = none ↔ ∀ m ∈ ms, has m k = false := by
  simp [top]

/-- Going back through the layers for what the covering ones have at a key. -/
theorem findSome?_reverse {β : Type*} {g : M → Option β} (hg : ∀ m ∈ ms, (g m).isSome = has m k) :
    ms.reverse.findSome? g = (top has k ms).bind g := by
  rw [top, List.getLast?_filter]
  have hg' : ∀ m ∈ ms.reverse, (g m).isSome = has m k := fun m hm => hg m (List.mem_reverse.mp hm)
  generalize ms.reverse = l at hg'
  induction l with
  | nil => rfl
  | cons m l induction =>
      obtain ⟨hm, hl⟩ := List.forall_mem_cons.mp hg'
      cases hv : g m with
      | none =>
          rw [hv] at hm
          rw [List.findSome?_cons, hv, List.find?_cons, ← hm]
          exact induction hl
      | some b =>
          rw [hv] at hm
          rw [List.findSome?_cons, hv, List.find?_cons, ← hm]
          exact hv.symm

/-- Layers that stand for other ones. -/
theorem top_map {N : Type*} (g : N → M) (l : List N) :
    top has k (l.map g) = (top (fun n k => has (g n) k) k l).map g := by
  rw [top, top, List.filter_map, List.getLast?_map]
  rfl

/-- A layer put on top counts where it covers. -/
theorem top_concat : top has k (ms ++ [m]) = if has m k then some m else top has k ms := by
  rw [top, List.filter_append]
  cases hm : has m k with
  | false => rw [List.filter_cons_of_neg (by simp [hm])]; simp [top]
  | true => rw [List.filter_cons_of_pos (by exact hm)]; simp

theorem top_append : top has k (front ++ back) = (top has k back).or (top has k front) := by
  rw [top, top, top, List.filter_append, List.getLast?_append]

/-- Taking a layer out matters where it is on top, and there the layers in front
of it count. -/
theorem top_remove (h : has m k = true) :
    (top has k (front ++ m :: back) = some m ∧ top has k (front ++ back) = top has k front) ∨
    (∃ a ∈ back, top has k (front ++ m :: back) = some a ∧ top has k (front ++ back) = some a) := by
  have hcons : top has k (m :: back) = (top has k back).or (some m) := by
    have happ := @top_append M K has k [m] back
    have hone : top has k [m] = some m := by
      rw [top, List.filter_cons_of_pos (by exact h)]
      rfl
    rwa [hone] at happ
  rw [top_append, top_append, hcons]
  cases hb : top has k back with
  | none => exact .inl ⟨rfl, rfl⟩
  | some a => exact .inr ⟨a, (mem_of_top hb).1, rfl, rfl⟩

theorem top_remove_of_not (h : has m k = false) :
    top has k (front ++ m :: back) = top has k (front ++ back) := by
  rw [top, top, List.filter_append, List.filter_append, List.filter_cons_of_neg (by simp [h])]

end Layers
