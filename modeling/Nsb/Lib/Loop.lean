import Mathlib.Data.List.Basic

/-!
# Loops that stop at the first error

The C idiom is a loop that calls an actor on every element of a list and leaves
at the first call that does not return zero, handing the code of that call to
the caller.  `Loop.each` is this loop over a state.  `Loop.eachSafe` is the same
loop when the actor may change the element in place or take it out of the list
(`none`), which is what the "safe" list iterators allow.  When it stops, the
elements behind the failing one are as they were.
-/

namespace Loop

variable {α σ : Type*}

/-- Call `f` on the elements in order, up to the first non-zero return code. -/
def each (f : α → σ → σ × Int) : List α → σ → σ × Int
  | [], s => (s, 0)
  | a :: l, s =>
      if (f a s).2 = 0 then each f l (f a s).1 else f a s

@[simp] theorem each_nil (f : α → σ → σ × Int) (s : σ) : each f [] s = (s, 0) := rfl

theorem each_cons_ok {f : α → σ → σ × Int} {a : α} {l : List α} {s : σ}
    (h : (f a s).2 = 0) : each f (a :: l) s = each f l (f a s).1 := by
  simp [each, h]

theorem each_cons_stop {f : α → σ → σ × Int} {a : α} {l : List α} {s : σ}
    (h : (f a s).2 ≠ 0) : each f (a :: l) s = f a s := by
  simp [each, h]

/-- Two loops in a row are one loop. -/
theorem each_append {f : α → σ → σ × Int} {l₁ l₂ : List α} {s : σ} :
    each f (l₁ ++ l₂) s =
      if (each f l₁ s).2 = 0 then each f l₂ (each f l₁ s).1 else each f l₁ s := by
  induction l₁ generalizing s with
  | nil => simp
  | cons a l₁ induction =>
      by_cases hr : (f a s).2 = 0
      · rw [List.cons_append, each_cons_ok hr, each_cons_ok hr, induction]
      · rw [List.cons_append, each_cons_stop hr, each_cons_stop hr, if_neg hr]

/-- What every call keeps, the loop keeps, however it ends. -/
theorem each_inv {f : α → σ → σ × Int} {I : σ → Prop} {l : List α} {s : σ}
    (hstep : ∀ a ∈ l, ∀ s, I s → I (f a s).1) (hs : I s) : I (each f l s).1 := by
  induction l generalizing s with
  | nil => exact hs
  | cons a l induction =>
      have ha : I (f a s).1 := hstep a (List.mem_cons_self ..) s hs
      by_cases hr : (f a s).2 = 0
      · rw [each_cons_ok hr]
        exact induction (fun b hb => hstep b (List.mem_cons_of_mem _ hb)) ha
      · rw [each_cons_stop hr]
        exact ha

/-- A loop of calls that only check returns zero when every check does. -/
theorem each_check_eq_zero {g : α → Int} {l : List α} :
    (each (fun a (_ : Unit) => ((), g a)) l ()).2 = 0 ↔ ∀ a ∈ l, g a = 0 := by
  induction l with
  | nil => simp
  | cons a l induction =>
      by_cases hr : g a = 0
      · rw [each_cons_ok (by exact hr), induction, List.forall_mem_cons]
        simp [hr]
      · rw [each_cons_stop (by exact hr), List.forall_mem_cons]
        simp [hr]

/-- Call `f` on the elements in order, up to the first non-zero return code.
Each call hands back the element as it leaves it, or `none` to drop it. -/
def eachSafe (f : α → σ → Option α × σ × Int) : List α → σ → List α × σ × Int
  | [], s => ([], s, 0)
  | a :: l, s =>
      if (f a s).2.2 = 0 then
        ((f a s).1.toList ++ (eachSafe f l (f a s).2.1).1, (eachSafe f l (f a s).2.1).2)
      else
        ((f a s).1.toList ++ l, (f a s).2)

@[simp] theorem eachSafe_nil (f : α → σ → Option α × σ × Int) (s : σ) :
    eachSafe f [] s = ([], s, 0) := rfl

theorem eachSafe_cons_ok {f : α → σ → Option α × σ × Int} {a : α} {l : List α} {s : σ}
    (h : (f a s).2.2 = 0) :
    eachSafe f (a :: l) s =
      ((f a s).1.toList ++ (eachSafe f l (f a s).2.1).1, (eachSafe f l (f a s).2.1).2) := by
  simp [eachSafe, h]

theorem eachSafe_cons_stop {f : α → σ → Option α × σ × Int} {a : α} {l : List α} {s : σ}
    (h : (f a s).2.2 ≠ 0) : eachSafe f (a :: l) s = ((f a s).1.toList ++ l, (f a s).2) := by
  simp [eachSafe, h]

/-- What every call keeps, a safe loop keeps, however it ends. -/
theorem eachSafe_inv {f : α → σ → Option α × σ × Int} {I : σ → Prop}
    (hstep : ∀ a s, I s → I (f a s).2.1) {l : List α} {s : σ} (hs : I s) :
    I (eachSafe f l s).2.1 := by
  induction l generalizing s with
  | nil => exact hs
  | cons a l induction =>
      by_cases hr : (f a s).2.2 = 0
      · rw [eachSafe_cons_ok hr]
        exact induction (hstep a s hs)
      · rw [eachSafe_cons_stop hr]
        exact hstep a s hs

/-- The invariant rule of a safe loop that runs to its end.  The invariant may
speak of the elements that are done, which are a prefix of the whole list. -/
theorem eachSafe_prefix {f : α → σ → Option α × σ × Int} {I : List α → σ → Prop} {whole : List α}
    (hstep : ∀ front a back s, whole = front ++ a :: back → I front s → (f a s).2.2 = 0 →
      I (front ++ [a]) (f a s).2.1) {l front : List α} {s : σ} (hw : whole = front ++ l)
    (hs : I front s) (hret : (eachSafe f l s).2.2 = 0) : I whole (eachSafe f l s).2.1 := by
  induction l generalizing front s with
  | nil =>
      rw [hw, List.append_nil]
      exact hs
  | cons a l induction =>
      by_cases hr : (f a s).2.2 = 0
      · rw [eachSafe_cons_ok hr] at hret ⊢
        have hw' : whole = (front ++ [a]) ++ l := by rw [hw, List.append_assoc]; rfl
        exact induction hw' (hstep front a l s hw hs hr) hret
      · rw [eachSafe_cons_stop hr] at hret
        exact absurd hret hr

/-- A safe loop over two lists in a row. -/
theorem eachSafe_append {f : α → σ → Option α × σ × Int} {l₁ l₂ : List α} {s : σ} :
    eachSafe f (l₁ ++ l₂) s =
      if (eachSafe f l₁ s).2.2 = 0 then
        ((eachSafe f l₁ s).1 ++ (eachSafe f l₂ (eachSafe f l₁ s).2.1).1,
          (eachSafe f l₂ (eachSafe f l₁ s).2.1).2)
      else ((eachSafe f l₁ s).1 ++ l₂, (eachSafe f l₁ s).2) := by
  induction l₁ generalizing s with
  | nil => simp
  | cons a l₁ induction =>
      by_cases hr : (f a s).2.2 = 0
      · rw [List.cons_append, eachSafe_cons_ok hr, eachSafe_cons_ok hr, induction]
        dsimp only
        split
        · rw [List.append_assoc]
        · rw [List.append_assoc]
      · rw [List.cons_append, eachSafe_cons_stop hr, eachSafe_cons_stop hr]
        dsimp only
        rw [if_neg hr, List.append_assoc]

/-- An element of the list afterwards was left as it is or comes from a call. -/
theorem eachSafe_mem {f : α → σ → Option α × σ × Int} {b : α} {l : List α} {s : σ}
    (h : b ∈ (eachSafe f l s).1) : b ∈ l ∨ ∃ a ∈ l, ∃ s, (f a s).1 = some b := by
  induction l generalizing s with
  | nil => cases h
  | cons a l induction =>
      by_cases hr : (f a s).2.2 = 0
      · rw [eachSafe_cons_ok hr] at h
        rcases List.mem_append.mp h with h | h
        · exact .inr ⟨a, List.mem_cons_self .., s, Option.mem_toList.mp h⟩
        · rcases induction h with h | ⟨c, hc, s', hs'⟩
          · exact .inl (List.mem_cons_of_mem _ h)
          · exact .inr ⟨c, List.mem_cons_of_mem _ hc, s', hs'⟩
      · rw [eachSafe_cons_stop hr] at h
        rcases List.mem_append.mp h with h | h
        · exact .inr ⟨a, List.mem_cons_self .., s, Option.mem_toList.mp h⟩
        · exact .inl (List.mem_cons_of_mem _ h)

/-- What no call changes in its element stays in the whole list. -/
theorem eachSafe_map {β : Type*} {f : α → σ → Option α × σ × Int} {g : α → β}
    (h : ∀ a s, ∃ a', (f a s).1 = some a' ∧ g a' = g a) {l : List α} {s : σ} :
    (eachSafe f l s).1.map g = l.map g := by
  induction l generalizing s with
  | nil => rfl
  | cons a l induction =>
      obtain ⟨a', ha, hg⟩ := h a s
      by_cases hr : (f a s).2.2 = 0
      · rw [eachSafe_cons_ok hr, ha]
        simp [hg, induction]
      · rw [eachSafe_cons_stop hr, ha]
        simp [hg]

/-- A safe loop without a state returns zero when every call does. -/
theorem eachSafe_ret_eq_zero {f : α → Unit → Option α × Unit × Int} {l : List α} :
    (eachSafe f l ()).2.2 = 0 ↔ ∀ a ∈ l, (f a ()).2.2 = 0 := by
  induction l with
  | nil => simp
  | cons a l induction =>
      by_cases hr : (f a ()).2.2 = 0
      · rw [eachSafe_cons_ok hr, List.forall_mem_cons, ← induction]
        simp [hr]
      · rw [eachSafe_cons_stop hr, List.forall_mem_cons]
        simp [hr]

/-- What a safe loop without a state leaves of the list when every call returns
zero. -/
theorem eachSafe_list {f : α → Unit → Option α × Unit × Int} {l : List α}
    (h : ∀ a ∈ l, (f a ()).2.2 = 0) :
    (eachSafe f l ()).1 = l.filterMap fun a => (f a ()).1 := by
  induction l with
  | nil => rfl
  | cons a l induction =>
      have ha : (f a ()).2.2 = 0 := h a (List.mem_cons_self ..)
      have hl := induction fun b hb => h b (List.mem_cons_of_mem _ hb)
      rw [eachSafe_cons_ok ha, List.filterMap_cons, hl]
      cases (f a ()).1 <;> rfl

/-- A statement about every element of a list and the elements in front of it. -/
theorem splits_cons {P : List α → α → Prop} {a : α} {l : List α} :
    (∀ front b back, a :: l = front ++ b :: back → P front b) ↔
      P [] a ∧ ∀ front b back, l = front ++ b :: back → P (a :: front) b := by
  constructor
  · intro h
    refine ⟨h [] a l rfl, fun front b back hl => h (a :: front) b back ?_⟩
    rw [hl, List.cons_append]
  · rintro ⟨ha, hl⟩ front b back heq
    cases front with
    | nil => cases heq; exact ha
    | cons c front => cases heq; exact hl front b back rfl

end Loop
