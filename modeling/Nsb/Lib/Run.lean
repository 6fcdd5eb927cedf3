import Mathlib.Data.List.Basic

/-!
# Runs of a labelled transition system

A system is a relation `step s l s'`.  A `Run` is a finite sequence of steps,
with the labels of its steps in order.  `Guarded step G` keeps the steps that
meet a condition `G` on the state before the step and the label, so a run of
`Guarded step G` is a run all of whose steps meet the condition.

Four rules turn a step lemma into a run lemma: an invariant of the steps holds
after every run (`Run.inv`), also one that speaks of the labels so far
(`Run.inv_labels`), a property of the label that follows from the invariant holds
of every label of the run (`Run.labels`), and a run of a guarded system is a run
of the system (`Run.mono`).
-/

namespace Lts

variable {S L : Type*}

/-- Finite runs, with the labels of their steps. -/
inductive Run (step : S → L → S → Prop) : S → List L → S → Prop where
  | nil {s : S} : Run step s [] s
  | snoc {s s' s'' : S} {ls : List L} {l : L} :
      Run step s ls s' → step s' l s'' → Run step s (ls ++ [l]) s''

/-- The steps that meet a condition on the state before them and their label. -/
def Guarded (step : S → L → S → Prop) (G : S → L → Prop) (s : S) (l : L) (s' : S) : Prop :=
  G s l ∧ step s l s'

variable {step : S → L → S → Prop}

/-- What holds at the start and is kept by every step holds after every run. -/
theorem Run.inv {I : S → Prop} (hstep : ∀ s l s', I s → step s l s' → I s')
    {s₀ s : S} {ls : List L} (h : Run step s₀ ls s) (h₀ : I s₀) : I s := by
  induction h with
  | nil => exact h₀
  | snoc _ hs ih => exact hstep _ _ _ ih hs

/-- The same for an invariant of the state and the labels so far. -/
theorem Run.inv_labels {I : List L → S → Prop}
    (hstep : ∀ ls s l s', I ls s → step s l s' → I (ls ++ [l]) s')
    {s₀ s : S} {ls : List L} (h : Run step s₀ ls s) (h₀ : I [] s₀) : I ls s := by
  induction h with
  | nil => exact h₀
  | snoc _ hs ih => exact hstep _ _ _ _ ih hs

/-- A property of labels that every step from an invariant state has, every
label of a run has. -/
theorem Run.labels {I : S → Prop} {Q : L → Prop} (hstep : ∀ s l s', I s → step s l s' → I s')
    (hlabel : ∀ s l s', I s → step s l s' → Q l)
    {s₀ s : S} {ls : List L} (h : Run step s₀ ls s) (h₀ : I s₀) : ∀ l ∈ ls, Q l := by
  induction h with
  | nil => intro l hl; cases hl
  | snoc hr hs ih =>
      intro l hl
      cases List.mem_append.mp hl with
      | inl hl' => exact ih l hl'
      | inr hl' =>
          rw [List.mem_singleton] at hl'
          subst hl'
          exact hlabel _ _ _ (hr.inv hstep h₀) hs

/-- A run of a guarded system is a run of the system. -/
theorem Run.mono {G : S → L → Prop} {s₀ s : S} {ls : List L}
    (h : Run (Guarded step G) s₀ ls s) : Run step s₀ ls s := by
  induction h with
  | nil => exact .nil
  | snoc _ hs ih => exact ih.snoc hs.2

end Lts
