import Mathlib.Data.Finset.Insert
import Mathlib.Data.List.Basic
import Mathlib.Data.List.Nodup
import Mathlib.Logic.Function.Basic

/-!
# Rings of links

A node has a link to the next one and a link to the previous one.  `Links.Seg` says
that some nodes lie between two others, linked both ways, and `Links.Ring` that they
hang on a head, which is both ends.  The two directions are alike (`Ring.flip`), so an
edit at the back of a ring is one at the front of the flipped ring.

`Ring.push`, `Ring.pushBack` and `Ring.remove` say which links have to change when a
node is put in or taken out, in terms of the links afterwards.  They do not ask in
which order the links were written.

`Links.Rings` is a memory with several rings that have no node in common.
-/

/-- The two links of every node. -/
@[ext] structure Links (P : Type*) where
  next : P → P
  prev : P → P

namespace Links

variable {P : Type*} {m m' : Links P} {p q x h : P} {l front back : List P}

/-- The links with their directions exchanged. -/
def flip (m : Links P) : Links P := ⟨m.prev, m.next⟩

@[simp] theorem flip_next (m : Links P) : m.flip.next = m.prev := rfl

@[simp] theorem flip_prev (m : Links P) : m.flip.prev = m.next := rfl

/-! ## Segments -/

/-- The nodes of a list lie between two nodes. -/
def Seg (m : Links P) : P → List P → P → Prop
  | p, [], q => m.next p = q ∧ m.prev q = p
  | p, x :: l, q => (m.next p = x ∧ m.prev x = p) ∧ m.Seg x l q

theorem seg_append : m.Seg p (front ++ x :: back) q ↔ m.Seg p front x ∧ m.Seg x back q := by
  induction front generalizing p with
  | nil => exact Iff.rfl
  | cons y front induction =>
      rw [List.cons_append, Seg, Seg, induction, and_assoc, and_assoc, and_assoc]

theorem seg_flip : m.flip.Seg q l.reverse p ↔ m.Seg p l q := by
  induction l generalizing p with
  | nil => exact and_comm
  | cons x l induction =>
      rw [List.reverse_cons, seg_append, induction, Seg, Seg, and_comm]
      exact and_congr_left' and_comm

/-- A segment depends on the links to the next node of all but its last node, and on
the links to the previous node of all but its first one. -/
theorem Seg.congr (hs : m.Seg p l q) (hnext : ∀ y ∈ p :: l, m'.next y = m.next y)
    (hprev : ∀ y ∈ l ++ [q], m'.prev y = m.prev y) : m'.Seg p l q := by
  induction l generalizing p with
  | nil =>
      rw [List.forall_mem_singleton] at hnext
      rw [List.nil_append, List.forall_mem_singleton] at hprev
      exact ⟨hnext.trans hs.1, hprev.trans hs.2⟩
  | cons x l induction =>
      rw [List.forall_mem_cons] at hnext
      rw [List.cons_append, List.forall_mem_cons] at hprev
      obtain ⟨⟨hpx, hxp⟩, hrest⟩ := hs
      exact ⟨⟨hnext.1.trans hpx, hprev.1.trans hxp⟩, induction hrest hnext.2 hprev.2⟩

/-- A node is put in front. -/
theorem Seg.push (hs : m.Seg p l q) (hp : m'.next p = x ∧ m'.prev x = p)
    (hx : m'.next x = m.next p ∧ m'.prev (m.next p) = x)
    (hnext : ∀ y ∈ l, m'.next y = m.next y)
    (hprev : ∀ y ∈ (l ++ [q]).tail, m'.prev y = m.prev y) : m'.Seg p (x :: l) q := by
  cases l with
  | nil =>
      rw [hs.1] at hx
      exact ⟨hp, hx⟩
  | cons y l =>
      obtain ⟨⟨hpy, _⟩, hrest⟩ := hs
      rw [hpy] at hx
      exact ⟨hp, hx, hrest.congr hnext hprev⟩

/-- The node in front is taken out. -/
theorem Seg.pop (hs : m.Seg p (x :: l) q) (hp : m'.next p = m.next x ∧ m'.prev (m.next x) = p)
    (hnext : ∀ y ∈ l, m'.next y = m.next y)
    (hprev : ∀ y ∈ (l ++ [q]).tail, m'.prev y = m.prev y) : m'.Seg p l q := by
  obtain ⟨_, hrest⟩ := hs
  cases l with
  | nil =>
      rw [hrest.1] at hp
      exact hp
  | cons y l =>
      obtain ⟨⟨hxy, _⟩, hrest⟩ := hrest
      rw [hxy] at hp
      exact ⟨hp, hrest.congr hnext hprev⟩

/-- The node behind the first one. -/
theorem Seg.head?_eq (hs : m.Seg p l q) : (l ++ [q]).head? = some (m.next p) := by
  cases l with
  | nil => exact congrArg some hs.1.symm
  | cons x l => exact congrArg some hs.1.1.symm

theorem Seg.next_mem (hs : m.Seg p l q) : m.next p ∈ l ++ [q] :=
  List.mem_of_mem_head? hs.head?_eq

/-! ## Rings -/

/-- The nodes of a list hang on a head. -/
structure Ring (m : Links P) (h : P) (l : List P) : Prop where
  nodup : (h :: l).Nodup
  seg : m.Seg h l h

theorem Ring.notMem (hr : m.Ring h l) : h ∉ l := (List.nodup_cons.mp hr.nodup).1

theorem ring_flip : m.flip.Ring h l.reverse ↔ m.Ring h l := by
  constructor
  · rintro ⟨hnodup, hseg⟩
    rw [List.nodup_cons, List.mem_reverse, List.nodup_reverse, ← List.nodup_cons] at hnodup
    exact ⟨hnodup, seg_flip.mp hseg⟩
  · rintro ⟨hnodup, hseg⟩
    rw [List.nodup_cons, ← List.mem_reverse, ← List.nodup_reverse, ← List.nodup_cons] at hnodup
    exact ⟨hnodup, seg_flip.mpr hseg⟩

/-- A ring depends on the links of its nodes. -/
theorem Ring.congr (hr : m.Ring h l)
    (hm : ∀ y ∈ h :: l, m'.next y = m.next y ∧ m'.prev y = m.prev y) : m'.Ring h l := by
  refine ⟨hr.nodup, hr.seg.congr (fun y hy => (hm y hy).1) fun y hy => (hm y ?_).2⟩
  rw [List.mem_append, List.mem_singleton] at hy
  exact List.mem_cons.mpr hy.symm

theorem Ring.next_eq (hr : m.Ring h (x :: l)) : m.next h = x := hr.seg.1.1

theorem Ring.next_mem (hr : m.Ring h l) : m.next h ∈ h :: l := by
  have hmem := hr.seg.next_mem
  rw [List.mem_append, List.mem_singleton] at hmem
  exact List.mem_cons.mpr hmem.symm

theorem Ring.prev_mem (hr : m.Ring h l) : m.prev h ∈ h :: l := by
  have hmem := (ring_flip.mpr hr).next_mem
  simpa using hmem

/-- The next node of a node is another one of its ring. -/
theorem Ring.next_mem_of (hr : m.Ring h (front ++ x :: back)) :
    m.next x ∈ h :: (front ++ back) ∧ m.next x ≠ x := by
  obtain ⟨hhead, hnodup⟩ := List.nodup_cons.mp hr.nodup
  obtain ⟨_, hback, _⟩ := List.nodup_append.mp hnodup
  have hmem := (seg_append.mp hr.seg).2.next_mem
  rw [List.mem_append, List.mem_singleton] at hmem
  rcases hmem with hmem | heq
  · refine ⟨List.mem_cons_of_mem _ (List.mem_append_right _ hmem), fun heq => ?_⟩
    exact (List.nodup_cons.mp hback).1 (heq ▸ hmem)
  · rw [heq]
    refine ⟨List.mem_cons_self .., ?_⟩
    rintro rfl
    exact hhead (List.mem_append_right _ (List.mem_cons_self ..))

theorem Ring.prev_mem_of (hr : m.Ring h (front ++ x :: back)) :
    m.prev x ∈ h :: (front ++ back) ∧ m.prev x ≠ x := by
  have hflip := ring_flip.mpr hr
  rw [List.reverse_append, List.reverse_cons, List.append_assoc, List.singleton_append] at hflip
  have hmem := hflip.next_mem_of
  simpa [or_comm] using hmem

/-- Every node of a ring can be taken as its head. -/
theorem ring_rotate : m.Ring h (front ++ x :: back) ↔ m.Ring x (back ++ h :: front) := by
  have hperm : (h :: (front ++ x :: back)).Perm (x :: (back ++ h :: front)) :=
    @List.perm_append_comm P (h :: front) (x :: back)
  constructor
  · rintro ⟨hnodup, hseg⟩
    exact ⟨hperm.nodup_iff.mp hnodup, seg_append.mpr (seg_append.mp hseg).symm⟩
  · rintro ⟨hnodup, hseg⟩
    exact ⟨hperm.nodup_iff.mpr hnodup, seg_append.mpr (seg_append.mp hseg).symm⟩

/-- From the head to the last node and back. -/
theorem Ring.next_prev (hr : m.Ring h l) : m.next (m.prev h) = h := by
  rcases List.eq_nil_or_concat l with rfl | ⟨l, x, rfl⟩
  · rw [hr.seg.2, hr.seg.1]
  · have hseg := hr.seg
    rw [List.concat_eq_append, seg_append] at hseg
    rw [hseg.2.2, hseg.2.1]

/-- The head alone. -/
theorem ring_nil_iff : m.Ring h [] ↔ m.next h = h ∧ m.prev h = h :=
  ⟨fun hr => hr.seg, fun hs => ⟨List.nodup_singleton h, hs⟩⟩

/-- The links that change when a node is put between the head and the next one. -/
structure Pushed (m m' : Links P) (h x : P) : Prop where
  head : m'.next h = x ∧ m'.prev x = h
  first : m'.next x = m.next h ∧ m'.prev (m.next h) = x
  next_eq : ∀ y, y ≠ h → y ≠ x → m'.next y = m.next y
  prev_eq : ∀ y, y ≠ m.next h → y ≠ x → m'.prev y = m.prev y

theorem Ring.push (hr : m.Ring h l) (hx : x ∉ h :: l) (hp : Pushed m m' h x) :
    m'.Ring h (x :: l) := by
  rw [List.mem_cons, not_or] at hx
  obtain ⟨hhead, hnodup⟩ := List.nodup_cons.mp hr.nodup
  have hne : ∀ y ∈ l, y ≠ h ∧ y ≠ x := fun y hy =>
    ⟨fun heq => hhead (heq ▸ hy), fun heq => hx.2 (heq ▸ hy)⟩
  refine ⟨?_, hr.seg.push hp.head hp.first ?_ ?_⟩
  · rw [List.nodup_cons, List.mem_cons, not_or, List.nodup_cons]
    exact ⟨⟨Ne.symm hx.1, hhead⟩, hx.2, hnodup⟩
  · exact fun y hy => hp.next_eq y (hne y hy).1 (hne y hy).2
  · intro y hy
    cases l with
    | nil => cases hy
    | cons z l =>
        rw [List.cons_append, List.tail_cons, List.mem_append, List.mem_singleton] at hy
        have hz := hr.next_eq
        have hyz : y ≠ z := by
          rintro rfl
          rcases hy with hy | rfl
          · exact (List.nodup_cons.mp hnodup).1 hy
          · exact hhead (List.mem_cons_self ..)
        refine hp.prev_eq y (hz ▸ hyz) ?_
        rcases hy with hy | rfl
        · exact (hne y (List.mem_cons_of_mem _ hy)).2
        · exact Ne.symm hx.1

theorem Ring.pushBack (hr : m.Ring h l) (hx : x ∉ h :: l) (hp : Pushed m.flip m'.flip h x) :
    m'.Ring h (l ++ [x]) := by
  have hflip : m.flip.Ring h l.reverse := ring_flip.mpr hr
  have hx' : x ∉ h :: l.reverse := by simpa using hx
  have hpush := hflip.push hx' hp
  rw [← ring_flip, List.reverse_append]
  exact hpush

/-- The links that change when a node is taken out. -/
structure Removed (m m' : Links P) (x : P) : Prop where
  seam : m'.next (m.prev x) = m.next x ∧ m'.prev (m.next x) = m.prev x
  next_eq : ∀ y, y ≠ m.prev x → y ≠ x → m'.next y = m.next y
  prev_eq : ∀ y, y ≠ m.next x → y ≠ x → m'.prev y = m.prev y

/-- The first node behind `p` is taken out. -/
theorem Seg.remove (hs : m.Seg p (x :: l) q) (hnodup : (p :: x :: l).Nodup) (hq : q ∉ x :: l)
    (hr : Removed m m' x) : m'.Seg p l q := by
  obtain ⟨⟨_, hxp⟩, hrest⟩ := hs
  obtain ⟨hp, hxl⟩ := List.nodup_cons.mp hnodup
  obtain ⟨hx, hl⟩ := List.nodup_cons.mp hxl
  have hseam := hr.seam
  rw [hxp] at hseam
  rw [List.mem_cons, not_or] at hp hq
  refine Seg.pop ⟨⟨‹_›, hxp⟩, hrest⟩ hseam (fun y hy => hr.next_eq y ?_ ?_) fun y hy => ?_
  · rw [hxp]
    exact fun heq => hp.2 (heq ▸ hy)
  · exact fun heq => hx (heq ▸ hy)
  · cases l with
    | nil => cases hy
    | cons z l =>
        rw [List.cons_append, List.tail_cons, List.mem_append, List.mem_singleton] at hy
        rw [hrest.1.1] at hseam
        refine hr.prev_eq y ?_ ?_
        · rw [hrest.1.1]
          rintro rfl
          rcases hy with hy | rfl
          · exact (List.nodup_cons.mp hl).1 hy
          · exact hq.2 (List.mem_cons_self ..)
        · rintro rfl
          rcases hy with hy | rfl
          · exact hx (List.mem_cons_of_mem _ hy)
          · exact hq.1 rfl

theorem Ring.remove (hr : m.Ring h (front ++ x :: back)) (hrem : Removed m m' x) :
    m'.Ring h (front ++ back) := by
  have hsub : List.Sublist (front ++ back) (front ++ x :: back) :=
    (List.Sublist.refl front).append (List.sublist_cons_self x back)
  refine ⟨hr.nodup.sublist (hsub.cons_cons h), ?_⟩
  obtain ⟨hhead, hnodup⟩ := List.nodup_cons.mp hr.nodup
  have hhead' : h ∉ x :: back := fun hmem => hhead (List.mem_append_right _ hmem)
  have hseg := hr.seg
  rcases List.eq_nil_or_concat front with rfl | ⟨front, u, rfl⟩
  · exact hseg.remove hr.nodup hhead' hrem
  · simp only [List.concat_eq_append, List.append_assoc, List.singleton_append, seg_append]
      at hseg hnodup hhead ⊢
    obtain ⟨hfront, hback⟩ := hseg
    have hxu : m.prev x = u := hback.1.2
    obtain ⟨_, hu, hdisj⟩ := List.nodup_append.mp hnodup
    have hprevs : ∀ y ∈ front ++ [u], y ≠ h ∧ y ∉ x :: back := by
      rw [List.forall_mem_append, List.forall_mem_singleton]
      refine ⟨fun y hy => ⟨?_, fun hmem => ?_⟩, ?_, (List.nodup_cons.mp hu).1⟩
      · rintro rfl
        exact hhead (List.mem_append_left _ hy)
      · exact hdisj y hy y (List.mem_cons_of_mem _ hmem) rfl
      · rintro rfl
        exact hhead (List.mem_append_right _ (List.mem_cons_self ..))
    refine ⟨hfront.congr (fun y hy => hrem.next_eq y ?_ ?_) fun y hy => hrem.prev_eq y ?_ ?_,
      hback.remove hu hhead' hrem⟩
    · rw [hxu]
      rintro rfl
      rcases List.mem_cons.mp hy with rfl | hy
      · exact hhead (List.mem_append_right _ (List.mem_cons_self ..))
      · exact hdisj y hy y (List.mem_cons_self ..) rfl
    · rintro rfl
      rcases List.mem_cons.mp hy with rfl | hy
      · exact hhead' (List.mem_cons_self ..)
      · exact (hprevs y (List.mem_append_left _ hy)).2 (List.mem_cons_self ..)
    · rintro rfl
      have hmem := Seg.next_mem hback.2
      rw [List.mem_append, List.mem_singleton] at hmem
      rcases hmem with hmem | heq
      · exact (hprevs _ hy).2 (List.mem_cons_of_mem _ hmem)
      · exact (hprevs _ hy).1 heq
    · rintro rfl
      exact (hprevs _ hy).2 (List.mem_cons_self ..)

/-! ## Several rings -/

/-- Rings that have no node in common. -/
structure Rings (m : Links P) (heads : Finset P) (elems : P → List P) : Prop where
  ring : ∀ h ∈ heads, m.Ring h (elems h)
  apart : ∀ h ∈ heads, ∀ h' ∈ heads, h ≠ h' → List.Disjoint (h :: elems h) (h' :: elems h')

/-- The links of nodes that are not in the ring a node is put into. -/
theorem Pushed.others (hp : Pushed m m' h x) (hn : m.next h ∈ h :: l) {l' : List P}
    (hdisj : List.Disjoint (h :: l) l') (hx : x ∉ l') :
    ∀ y ∈ l', m'.next y = m.next y ∧ m'.prev y = m.prev y := by
  intro y hy
  have hyh : y ≠ h := fun heq => hdisj (heq ▸ List.mem_cons_self ..) hy
  have hyn : y ≠ m.next h := fun heq => hdisj (heq ▸ hn) hy
  have hyx : y ≠ x := fun heq => hx (heq ▸ hy)
  exact ⟨hp.next_eq y hyh hyx, hp.prev_eq y hyn hyx⟩

/-- The links of nodes that are not in the ring a node is taken out of. -/
theorem Removed.others (hrem : Removed m m' x) (hr : m.Ring h (front ++ x :: back)) {l' : List P}
    (hdisj : List.Disjoint (h :: (front ++ x :: back)) l') :
    ∀ y ∈ l', m'.next y = m.next y ∧ m'.prev y = m.prev y := by
  have hsub : ∀ y ∈ h :: (front ++ back), y ∈ h :: (front ++ x :: back) := by
    simp only [List.mem_cons, List.mem_append]
    tauto
  intro y hy
  have hyp : y ≠ m.prev x := fun heq => hdisj (heq ▸ hsub _ hr.prev_mem_of.1) hy
  have hyn : y ≠ m.next x := fun heq => hdisj (heq ▸ hsub _ hr.next_mem_of.1) hy
  have hyx : y ≠ x := fun heq => hdisj (heq ▸ by simp) hy
  exact ⟨hrem.next_eq y hyp hyx, hrem.prev_eq y hyn hyx⟩

/-- A ring that is made of an unused node. -/
theorem Rings.insert [DecidableEq P] {heads : Finset P} {elems : P → List P}
    (hr : Rings m heads elems) (hh : ∀ h' ∈ heads, h ∉ h' :: elems h') (hring : m'.Ring h [])
    (hm : ∀ y, y ≠ h → m'.next y = m.next y ∧ m'.prev y = m.prev y) :
    Rings m' (Insert.insert h heads) (Function.update elems h []) := by
  have hne : ∀ h' ∈ heads, h' ≠ h := fun h' hh' heq => hh h' hh' (heq ▸ List.mem_cons_self ..)
  have hnew : ∀ h' ∈ heads, List.Disjoint [h] (h' :: elems h') := by
    intro h' hh' x hx hx'
    obtain rfl := List.mem_singleton.mp hx
    exact hh h' hh' hx'
  refine ⟨fun h' hh' => ?_, fun h₁ hh₁ h₂ hh₂ hne' => ?_⟩
  · rcases Finset.mem_insert.mp hh' with rfl | hh'
    · rw [Function.update_self]
      exact hring
    · rw [Function.update_of_ne (hne h' hh')]
      exact (hr.ring h' hh').congr fun y hy => hm y fun heq => hh h' hh' (heq ▸ hy)
  · rcases Finset.mem_insert.mp hh₁ with heq₁ | hold₁
    · rcases Finset.mem_insert.mp hh₂ with heq₂ | hold₂
      · exact absurd (heq₁.trans heq₂.symm) hne'
      · rw [heq₁, Function.update_self, Function.update_of_ne (hne h₂ hold₂)]
        exact hnew h₂ hold₂
    · rcases Finset.mem_insert.mp hh₂ with heq₂ | hold₂
      · rw [heq₂, Function.update_self, Function.update_of_ne (hne h₁ hold₁)]
        exact (hnew h₁ hold₁).symm
      · rw [Function.update_of_ne (hne h₁ hold₁), Function.update_of_ne (hne h₂ hold₂)]
        exact hr.apart h₁ hold₁ h₂ hold₂ hne'

/-- A node of one ring or of none is edited, and the other rings are as they were. -/
theorem Rings.update [DecidableEq P] {heads : Finset P} {elems : P → List P}
    (hr : Rings m heads elems) (hh : h ∈ heads) (hring : m'.Ring h l)
    (hl : ∀ x ∈ l, x ∈ elems h ∨ ∀ h' ∈ heads, x ∉ h' :: elems h')
    (hm : ∀ h' ∈ heads, h' ≠ h → ∀ y ∈ h' :: elems h',
      m'.next y = m.next y ∧ m'.prev y = m.prev y) :
    Rings m' heads (Function.update elems h l) := by
  have hnew : ∀ h' ∈ heads, h' ≠ h → List.Disjoint (h :: l) (h' :: elems h') := by
    intro h' hh' hne x hx hx'
    rcases List.mem_cons.mp hx with rfl | hx
    · exact hr.apart _ hh h' hh' (Ne.symm hne) (List.mem_cons_self ..) hx'
    · rcases hl x hx with hx | hx
      · exact hr.apart _ hh h' hh' (Ne.symm hne) (List.mem_cons_of_mem _ hx) hx'
      · exact hx h' hh' hx'
  refine ⟨fun h' hh' => ?_, fun h₁ hh₁ h₂ hh₂ hne => ?_⟩
  · by_cases heq : h' = h
    · subst heq
      rw [Function.update_self]
      exact hring
    · rw [Function.update_of_ne heq]
      exact (hr.ring h' hh').congr (hm h' hh' heq)
  · by_cases h1 : h₁ = h
    · subst h1
      rw [Function.update_self, Function.update_of_ne (Ne.symm hne)]
      exact hnew h₂ hh₂ (Ne.symm hne)
    · by_cases h2 : h₂ = h
      · subst h2
        rw [Function.update_self, Function.update_of_ne hne]
        exact (hnew h₁ hh₁ hne).symm
      · rw [Function.update_of_ne h1, Function.update_of_ne h2]
        exact hr.apart h₁ hh₁ h₂ hh₂ hne

end Links
