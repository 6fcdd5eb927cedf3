import Mathlib.Data.List.SplitBy

/-!
# Lists that are cut into groups

`List.splitBy` cuts a list where a relation between neighbours fails.  A list of
groups is the result of such a cut when the relation holds inside of every group
and fails from one group to the next (`List.splitBy_flatten`).

`isChain_of_filter` is for groups of two kinds: the first kind alone is a cut,
and a group of the second kind never goes together with another one.
`flatten_split` finds the place between two groups that a place between two
elements is.
-/

namespace Groups

variable {α : Type*}

/-- Neighbours of one kind are neighbours in the list of that kind. -/
theorem isChain_of_filter {R : α → α → Prop} {p : α → Bool} :
    ∀ {l : List α}, (l.filter p).IsChain R →
      l.Pairwise (fun x y => p x = false ∨ p y = false → R x y) → l.IsChain R
  | [], _, _ => .nil
  | [x], _, _ => List.isChain_singleton x
  | x :: y :: l, hc, hp => by
      obtain ⟨hx, hp'⟩ := List.pairwise_cons.mp hp
      have htail : ((y :: l).filter p).IsChain R := by
        cases h : p x with
        | false => rwa [List.filter_cons_of_neg (by simp [h])] at hc
        | true => exact (List.filter_cons_of_pos h ▸ hc : (x :: (y :: l).filter p).IsChain R).tail
      refine List.isChain_cons_cons.mpr ⟨?_, isChain_of_filter htail hp'⟩
      cases h : p x with
      | false => exact hx y (List.mem_cons_self ..) (.inl h)
      | true =>
          cases h' : p y with
          | false => exact hx y (List.mem_cons_self ..) (.inr h')
          | true =>
              rw [List.filter_cons_of_pos h, List.filter_cons_of_pos h'] at hc
              exact (List.isChain_cons_cons.mp hc).1

/-- If no group has elements on both sides of a cut, the cut is between two
groups. -/
theorem flatten_split {p : α → Bool} :
    ∀ {gs : List (List α)} {front back : List α}, gs.flatten = front ++ back →
      (∀ x ∈ front, p x = true) → (∀ x ∈ back, p x = false) →
      (∀ g ∈ gs, (∀ x ∈ g, p x = true) ∨ (∀ x ∈ g, p x = false)) →
      ∃ gs₁ gs₂, gs = gs₁ ++ gs₂ ∧ gs₁.flatten = front ∧ gs₂.flatten = back
  | [], front, back, h, _, _, _ => by
      obtain ⟨rfl, rfl⟩ := List.append_eq_nil_iff.mp h.symm
      exact ⟨[], [], rfl, rfl, rfl⟩
  | g :: gs, front, back, h, hf, hb, hg => by
      rw [List.flatten_cons] at h
      rcases List.append_eq_append_iff.mp h with ⟨rest, hfront, hrest⟩ | ⟨rest, hgroup, hback⟩
      · -- the first group is in front of the cut
        have hf' : ∀ x ∈ rest, p x = true := fun x hx =>
          hf x (by rw [hfront]; exact List.mem_append_right _ hx)
        obtain ⟨gs₁, gs₂, hgs, h₁, h₂⟩ :=
          flatten_split hrest hf' hb fun g' hg' => hg g' (List.mem_cons_of_mem _ hg')
        exact ⟨g :: gs₁, gs₂, by rw [hgs]; rfl, by rw [List.flatten_cons, h₁, hfront], h₂⟩
      · cases rest with
        | nil =>
            rw [List.append_nil] at hgroup
            rw [List.nil_append] at hback
            exact ⟨[g], gs, rfl, by rw [← hgroup]; simp, hback.symm⟩
        | cons y rest =>
            cases front with
            | nil =>
                refine ⟨[], g :: gs, rfl, rfl, ?_⟩
                rw [List.flatten_cons, hback, hgroup]
                rfl
            | cons x front =>
                -- the group would have elements on both sides
                have hx : p x = true := hf x (List.mem_cons_self ..)
                have hy : p y = false := hb y (by rw [hback]; simp)
                have hxg : x ∈ g := by rw [hgroup]; simp
                have hyg : y ∈ g := by rw [hgroup]; simp
                rcases hg g (List.mem_cons_self ..) with hall | hall
                · exact absurd (hall y hyg) (by simp [hy])
                · exact absurd (hall x hxg) (by simp [hx])

/-- Lists that give the same list go together element by element. -/
theorem forall₂_of_map_eq {β γ : Type*} {R : α → β → Prop} {f : α → γ} {g : β → γ} :
    ∀ {l : List α} {l' : List β}, l.map f = l'.map g →
      (∀ a ∈ l, ∀ b ∈ l', f a = g b → R a b) → List.Forall₂ R l l'
  | [], [], _, _ => .nil
  | [], b :: l', h, _ => by cases h
  | a :: l, [], h, _ => by cases h
  | a :: l, b :: l', h, hR => by
      obtain ⟨hab, hl⟩ := List.cons.inj h
      refine .cons (hR a (List.mem_cons_self ..) b (List.mem_cons_self ..) hab) ?_
      exact forall₂_of_map_eq hl fun x hx y hy =>
        hR x (List.mem_cons_of_mem _ hx) y (List.mem_cons_of_mem _ hy)

theorem map_eq_of_forall₂ {β γ : Type*} {R : α → β → Prop} {f : α → γ} {g : β → γ} {l : List α}
    {l' : List β} (h : List.Forall₂ R l l') (hR : ∀ a b, R a b → f a = g b) :
    l.map f = l'.map g := by
  induction h with
  | nil => rfl
  | cons hab _ ih => rw [List.map_cons, List.map_cons, hR _ _ hab, ih]

theorem forall₂_comp {β γ : Type*} {R : α → β → Prop} {S : β → γ → Prop} {T : α → γ → Prop}
    (h : ∀ a b c, R a b → S b c → T a c) {l : List α} {l' : List β} {l'' : List γ}
    (hR : List.Forall₂ R l l') (hS : List.Forall₂ S l' l'') : List.Forall₂ T l l'' := by
  induction hR generalizing l'' with
  | nil =>
      cases hS
      exact .nil
  | cons hab _ ih =>
      cases hS with
      | cons hbc hrest => exact .cons (h _ _ _ hab hbc) (ih hrest)

/-- Cutting a list cuts the one that goes with it. -/
theorem forall₂_split {β : Type*} {R : α → β → Prop} {a : α} {l₂ : List α} :
    ∀ {l₁ : List α} {l : List β}, List.Forall₂ R (l₁ ++ a :: l₂) l →
      ∃ l₁' b l₂', l = l₁' ++ b :: l₂' ∧ List.Forall₂ R l₁ l₁' ∧ R a b
  | [], _, .cons hab _ => ⟨[], _, _, rfl, .nil, hab⟩
  | c :: l₁, _, .cons hc hl => by
      obtain ⟨l₁', b, l₂', rfl, h₁, hab⟩ := forall₂_split hl
      exact ⟨_ :: l₁', b, l₂', rfl, .cons hc h₁, hab⟩

theorem exists_of_forall₂ {β : Type*} {R : α → β → Prop} {l : List α} {l' : List β}
    (h : List.Forall₂ R l l') {b : β} (hb : b ∈ l') : ∃ a ∈ l, R a b := by
  induction h with
  | nil => cases hb
  | @cons a c l l' hac _ ih =>
      rcases List.mem_cons.mp hb with rfl | hmem
      · exact ⟨a, List.mem_cons_self .., hac⟩
      · obtain ⟨x, hx, hxb⟩ := ih hmem
        exact ⟨x, List.mem_cons_of_mem _ hx, hxb⟩

end Groups
