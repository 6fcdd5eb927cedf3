import Nsb.Lib.Loop
import Nsb.Lib.Ring
import Nsb.Patcher.InfectLoop

/-!
# Lists in memory

The lists of `patcher/include/list.h`, which the other modules model by lists: the
operations that the patcher uses are run on the links of the nodes, in the order of
the source.

`listOps_refine` is about any sequence of operations on any number of lists.  As long
as a node is put into a list only when it is in none, and taken out of the list it is
in, going over a list forwards or backwards shows the nodes it should have.

`listForEachEntrySafe_refines` is about the loop whose body may delete the node it is
at.  It is the loop of `Loop.eachSafe`: the next node is read before the body, so that
the poison in a deleted node is never followed.
-/

namespace Nsb

open Links

/-! ## The operations -/

section

variable {P : Type} [DecidableEq P]

def setNext (m : Links P) (x y : P) : Links P := { m with next := Function.update m.next x y }

def setPrev (m : Links P) (x y : P) : Links P := { m with prev := Function.update m.prev x y }

/-- `INIT_LIST_HEAD`. -/
def initListHead (m : Links P) (list : P) : Links P :=
  let m := setNext m list list
  setPrev m list list

/-- `__list_add`. -/
def listAddBetween (m : Links P) (new prev next : P) : Links P :=
  let m := setPrev m next new
  let m := setNext m new next
  let m := setPrev m new prev
  setNext m prev new

/-- `list_add`. -/
def listAdd (m : Links P) (new head : P) : Links P := listAddBetween m new head (m.next head)

/-- `list_add_tail`. -/
def listAddTail (m : Links P) (new head : P) : Links P := listAddBetween m new (m.prev head) head

/-- `__list_del`. -/
def listDelBetween (m : Links P) (prev next : P) : Links P :=
  let m := setPrev m next prev
  setNext m prev next

variable (poison₁ poison₂ : P)

/-- `list_del`. -/
def listDel (m : Links P) (entry : P) : Links P :=
  let m := listDelBetween m (m.prev entry) (m.next entry)
  let m := setNext m entry poison₁
  setPrev m entry poison₂

/-- `list_empty`. -/
def listEmpty (m : Links P) (head : P) : Bool := decide (m.next head = head)

/-- `list_for_each` from a position, with at most so many tests of its condition.  The
result are the positions. -/
def listForEach (m : Links P) (head : P) : Nat → P → Option (List P)
  | 0, _ => none
  | n + 1, pos =>
      if pos = head then some [] else (listForEach m head n (m.next pos)).map (pos :: ·)

/-! ## What they change -/

variable {m : Links P} {x h : P} {l front back : List P}

theorem listAdd_pushed (hx : x ≠ h) (hn : x ≠ m.next h) : Pushed m (listAdd m x h) h x where
  head := by simp [listAdd, listAddBetween, setNext, setPrev]
  first := by simp [listAdd, listAddBetween, setNext, setPrev, hx, Ne.symm hn]
  next_eq := fun y hh hy => by simp [listAdd, listAddBetween, setNext, setPrev, hh, hy]
  prev_eq := fun y hh hy => by simp [listAdd, listAddBetween, setNext, setPrev, hh, hy]

theorem listAddTail_pushed (hx : x ≠ h) (hp : x ≠ m.prev h) :
    Pushed m.flip (listAddTail m x h).flip h x where
  head := by simp [listAddTail, listAddBetween, setNext, setPrev, Ne.symm hx, hp]
  first := by simp [listAddTail, listAddBetween, setNext, setPrev]
  next_eq := fun y hh hy => by simp [listAddTail, listAddBetween, setNext, setPrev, hh, hy]
  prev_eq := fun y hh hy => by
    rw [flip_next] at hh
    simp [listAddTail, listAddBetween, setNext, setPrev, hh, hy]

theorem listDel_removed (hp : m.prev x ≠ x) (hn : m.next x ≠ x) :
    Removed m (listDel poison₁ poison₂ m x) x where
  seam := by simp [listDel, listDelBetween, setNext, setPrev, hp, hn]
  next_eq := fun y hh hy => by simp [listDel, listDelBetween, setNext, setPrev, hh, hy]
  prev_eq := fun y hh hy => by simp [listDel, listDelBetween, setNext, setPrev, hh, hy]

/-! ## One ring -/

theorem initListHead_ring : (initListHead m h).Ring h [] :=
  ring_nil_iff.mpr (by simp [initListHead, setNext, setPrev])

theorem listAdd_pushed_of_ring (hr : m.Ring h l) (hx : x ∉ h :: l) :
    Pushed m (listAdd m x h) h x :=
  listAdd_pushed (List.ne_of_not_mem_cons hx) fun heq => hx (heq ▸ hr.next_mem)

theorem listAddTail_pushed_of_ring (hr : m.Ring h l) (hx : x ∉ h :: l) :
    Pushed m.flip (listAddTail m x h).flip h x :=
  listAddTail_pushed (List.ne_of_not_mem_cons hx) fun heq => hx (heq ▸ hr.prev_mem)

theorem listAdd_ring (hr : m.Ring h l) (hx : x ∉ h :: l) : (listAdd m x h).Ring h (x :: l) :=
  hr.push hx (listAdd_pushed_of_ring hr hx)

theorem listAddTail_ring (hr : m.Ring h l) (hx : x ∉ h :: l) :
    (listAddTail m x h).Ring h (l ++ [x]) :=
  hr.pushBack hx (listAddTail_pushed_of_ring hr hx)

/-- An addition at the end leaves the links of the nodes of other lists. -/
theorem listAddTail_others (hr : m.Ring h l) (hx : x ∉ h :: l) {l' : List P}
    (hdisj : List.Disjoint (h :: l) l') (hx' : x ∉ l') :
    ∀ y ∈ l', (listAddTail m x h).next y = m.next y ∧ (listAddTail m x h).prev y = m.prev y :=
  fun y hy => ((listAddTail_pushed_of_ring hr hx).others hr.prev_mem hdisj hx' y hy).symm

/-- In a ring, behind the node in front of another one is in front of this one. -/
theorem listAdd_prev (hr : m.Ring h l) : listAdd m x (m.prev h) = listAddTail m x h := by
  rw [listAdd, hr.next_prev, listAddTail]

section

variable {pos : P} (hr : m.Ring h (front ++ pos :: back)) (hx : x ∉ h :: (front ++ pos :: back))
include hr hx

/-- Seen from a node of the list, `list_add` in front of it is an addition at the
end. -/
theorem listAdd_prev_rotated : listAdd m x (m.prev pos) = listAddTail m x pos ∧
    m.Ring pos (back ++ h :: front) ∧ x ∉ pos :: (back ++ h :: front) := by
  have hpos := ring_rotate.mp hr
  refine ⟨listAdd_prev hpos, hpos, ?_⟩
  simp only [List.mem_cons, List.mem_append] at hx ⊢
  tauto

/-- `list_add` in front of a node of the list. -/
theorem listAdd_prev_ring : (listAdd m x (m.prev pos)).Ring h (front ++ x :: pos :: back) := by
  obtain ⟨hadd, hpos, hx'⟩ := listAdd_prev_rotated hr hx
  have hring := listAddTail_ring hpos hx'
  rw [← hadd, List.append_assoc, List.cons_append, ← ring_rotate] at hring
  simpa using hring

theorem listAdd_prev_others {l' : List P}
    (hdisj : List.Disjoint (h :: (front ++ pos :: back)) l') (hx' : x ∉ l') :
    ∀ y ∈ l', (listAdd m x (m.prev pos)).next y = m.next y ∧
      (listAdd m x (m.prev pos)).prev y = m.prev y := by
  obtain ⟨hadd, hpos, hxpos⟩ := listAdd_prev_rotated hr hx
  rw [hadd]
  refine listAddTail_others hpos hxpos (fun y hy => hdisj ?_) hx'
  simp only [List.mem_cons, List.mem_append] at hy ⊢
  tauto

end

theorem listDel_removed_of_ring (hr : m.Ring h (front ++ x :: back)) :
    Removed m (listDel poison₁ poison₂ m x) x :=
  listDel_removed poison₁ poison₂ hr.prev_mem_of.2 hr.next_mem_of.2

theorem listDel_ring (hr : m.Ring h (front ++ x :: back)) :
    (listDel poison₁ poison₂ m x).Ring h (front ++ back) :=
  hr.remove (listDel_removed_of_ring poison₁ poison₂ hr)

theorem listEmpty_eq (hr : m.Ring h l) : listEmpty m h = l.isEmpty := by
  rw [listEmpty]
  cases l with
  | nil => exact decide_eq_true hr.seg.1
  | cons y l =>
      rw [hr.next_eq]
      exact decide_eq_false fun heq => hr.notMem (heq ▸ List.mem_cons_self ..)

/-- Going over a segment to the head. -/
theorem listForEach_seg {p : P} (hs : m.Seg p l h) (hh : h ∉ l) {n : Nat} (hn : l.length < n) :
    listForEach m h n (m.next p) = some l := by
  induction l generalizing p n with
  | nil =>
      obtain ⟨n, rfl⟩ := Nat.exists_eq_succ_of_ne_zero (Nat.ne_of_gt hn)
      rw [hs.1, listForEach, if_pos rfl]
  | cons y l induction =>
      obtain ⟨n, rfl⟩ := Nat.exists_eq_succ_of_ne_zero (Nat.ne_of_gt (Nat.zero_lt_of_lt hn))
      rw [List.mem_cons, not_or] at hh
      obtain ⟨⟨hpy, _⟩, hrest⟩ := hs
      rw [hpy, listForEach, if_neg (Ne.symm hh.1),
        induction hrest hh.2 (Nat.lt_of_succ_lt_succ hn)]
      rfl

/-! ## Any number of lists -/

/-- Lists and their heads. -/
structure Lists (P : Type) where
  heads : Finset P
  elems : P → List P

/-- The operations.  `addBefore` is `list_add` behind the node in front of `pos`, as the
sorted insertions call it.  `addBefore` and `del` have the head of the list as well,
which `list_add` and `list_del` do not get. -/
inductive ListOp (P : Type) where
  | init (h : P)
  | add (x h : P)
  | addTail (x h : P)
  | addBefore (x pos h : P)
  | del (x h : P)

/-- A node is in no list. -/
def Lists.Unused (s : Lists P) (x : P) : Prop := ∀ h ∈ s.heads, x ∉ h :: s.elems h

/-- What an operation asks of the lists. -/
def ListOp.Enabled (s : Lists P) : ListOp P → Prop
  | .init h => s.Unused h
  | .add x h => h ∈ s.heads ∧ s.Unused x
  | .addTail x h => h ∈ s.heads ∧ s.Unused x
  | .addBefore x pos h => h ∈ s.heads ∧ s.Unused x ∧ pos ∈ s.elems h
  | .del x h => h ∈ s.heads ∧ x ∈ s.elems h

/-- What an operation does to the lists. -/
def ListOp.effect (s : Lists P) : ListOp P → Lists P
  | .init h => ⟨insert h s.heads, Function.update s.elems h []⟩
  | .add x h => ⟨s.heads, Function.update s.elems h (x :: s.elems h)⟩
  | .addTail x h => ⟨s.heads, Function.update s.elems h (s.elems h ++ [x])⟩
  | .addBefore x pos h =>
      ⟨s.heads, Function.update s.elems h ((s.elems h).insertIdx ((s.elems h).idxOf pos) x)⟩
  | .del x h => ⟨s.heads, Function.update s.elems h ((s.elems h).erase x)⟩

/-- What an operation does to the links. -/
def ListOp.run (m : Links P) : ListOp P → Links P
  | .init h => initListHead m h
  | .add x h => listAdd m x h
  | .addTail x h => listAddTail m x h
  | .addBefore x pos _ => listAdd m x (m.prev pos)
  | .del x _ => listDel poison₁ poison₂ m x

/-- Operations each of which gets what it asks for. -/
def AllEnabled (s : Lists P) : List (ListOp P) → Prop
  | [] => True
  | op :: ops => op.Enabled s ∧ AllEnabled (op.effect s) ops

theorem insertIdx_idxOf {pos : P} (h : pos ∉ front) :
    (front ++ pos :: back).insertIdx ((front ++ pos :: back).idxOf pos) x =
      front ++ x :: pos :: back := by
  induction front with
  | nil => simp
  | cons y front induction =>
      rw [List.mem_cons, not_or] at h
      rw [List.cons_append, List.idxOf_cons_ne _ (Ne.symm h.1), List.insertIdx_succ_cons,
        induction h.2, List.cons_append]

/-- An operation that gets what it asks for does to the links what it does to the
lists. -/
theorem ListOp.run_rings {s : Lists P} {op : ListOp P} (hr : Rings m s.heads s.elems)
    (h : op.Enabled s) :
    Rings (op.run poison₁ poison₂ m) (op.effect s).heads (op.effect s).elems := by
  cases op with
  | init h =>
      exact hr.insert h initListHead_ring fun y hy => by
        simp [ListOp.run, initListHead, setNext, setPrev, hy]
  | add x h' =>
      obtain ⟨hh, hx⟩ := h
      have hring := hr.ring h' hh
      have hxh := hx h' hh
      refine hr.update hh (listAdd_ring hring hxh) ?_ fun h'' hh'' hne => ?_
      · rw [List.forall_mem_cons]
        exact ⟨.inr hx, fun y hy => .inl hy⟩
      · exact (listAdd_pushed_of_ring hring hxh).others hring.next_mem
          (hr.apart h' hh h'' hh'' (Ne.symm hne)) (hx h'' hh'')
  | addTail x h' =>
      obtain ⟨hh, hx⟩ := h
      have hring := hr.ring h' hh
      have hxh := hx h' hh
      refine hr.update hh (listAddTail_ring hring hxh) ?_ fun h'' hh'' hne => ?_
      · rw [List.forall_mem_append, List.forall_mem_singleton]
        exact ⟨fun y hy => .inl hy, .inr hx⟩
      · exact listAddTail_others hring hxh (hr.apart h' hh h'' hh'' (Ne.symm hne)) (hx h'' hh'')
  | addBefore x pos h' =>
      obtain ⟨hh, hx, hpos⟩ := h
      have hring := hr.ring h' hh
      have hxh := hx h' hh
      have hdisj (h'' : P) (hh'' : h'' ∈ s.heads) (hne : h'' ≠ h') :=
        hr.apart h' hh h'' hh'' (Ne.symm hne)
      obtain ⟨front, back, hsplit, hfront⟩ := List.eq_append_cons_of_mem hpos
      have hinsert : (s.elems h').insertIdx ((s.elems h').idxOf pos) x =
          front ++ x :: pos :: back := by rw [hsplit, insertIdx_idxOf hfront]
      rw [hsplit] at hring hxh
      refine hr.update hh (hinsert ▸ listAdd_prev_ring hring hxh) (fun y hy => ?_)
        fun h'' hh'' hne => ?_
      · rcases List.eq_or_mem_of_mem_insertIdx hy with rfl | hy
        · exact .inr hx
        · exact .inl hy
      · have hdisj' := hdisj h'' hh'' hne
        rw [hsplit] at hdisj'
        exact listAdd_prev_others hring hxh hdisj' (hx h'' hh'')
  | del x h' =>
      obtain ⟨hh, hx⟩ := h
      have hring := hr.ring h' hh
      have hdisj (h'' : P) (hh'' : h'' ∈ s.heads) (hne : h'' ≠ h') :=
        hr.apart h' hh h'' hh'' (Ne.symm hne)
      obtain ⟨front, back, hsplit⟩ := List.append_of_mem hx
      have hnodup := (List.nodup_cons.mp hring.nodup).2
      rw [hsplit] at hring hnodup
      have herase : (s.elems h').erase x = front ++ back := by
        have hfront : x ∉ front := fun hmem =>
          (List.nodup_append.mp hnodup).2.2 x hmem x (List.mem_cons_self ..) rfl
        rw [hsplit, List.erase_append_right _ hfront, List.erase_cons_head]
      have hremoved := listDel_removed_of_ring poison₁ poison₂ hring
      refine hr.update hh (herase ▸ listDel_ring poison₁ poison₂ hring)
        (fun y hy => .inl (List.mem_of_mem_erase hy)) fun h'' hh'' hne => ?_
      have hdisj' := hdisj h'' hh'' hne
      rw [hsplit] at hdisj'
      exact hremoved.others hring hdisj'

/-- After any sequence of operations that get what they ask for, every list is in
memory: going over it forwards shows its nodes, going over it backwards shows them in
the other order, and it is found empty when it is. -/
theorem listOps_refine {s : Lists P} {ops : List (ListOp P)} (hr : Rings m s.heads s.elems)
    (h : AllEnabled s ops) :
    ∀ hd ∈ (ops.foldl ListOp.effect s).heads,
      let links := ops.foldl (ListOp.run poison₁ poison₂) m
      let l := (ops.foldl ListOp.effect s).elems hd
      (∀ n, l.length < n → listForEach links hd n (links.next hd) = some l ∧
        listForEach links.flip hd n (links.prev hd) = some l.reverse) ∧
      listEmpty links hd = l.isEmpty := by
  have hfinal : Rings (ops.foldl (ListOp.run poison₁ poison₂) m)
      (ops.foldl ListOp.effect s).heads (ops.foldl ListOp.effect s).elems := by
    induction ops generalizing s m with
    | nil => exact hr
    | cons op ops induction => exact induction (ListOp.run_rings poison₁ poison₂ hr h.1) h.2
  intro hd hhd
  have hring := hfinal.ring hd hhd
  refine ⟨fun n hn => ⟨listForEach_seg hring.seg hring.notMem hn, ?_⟩, listEmpty_eq hring⟩
  have hflip := ring_flip.mpr hring
  exact listForEach_seg hflip.seg hflip.notMem (by rwa [List.length_reverse])

/-- Two nodes are put into a list and a third one between them, and the first of them is
taken out. -/
theorem threeNodes_refine :
    let ops : List (ListOp Nat) :=
      [.init 0, .addTail 1 0, .addTail 3 0, .addBefore 2 3 0, .del 1 0]
    let links := ops.foldl (ListOp.run 0x100100 0x200200) ⟨fun _ => 0, fun _ => 0⟩
    listForEach links 0 3 (links.next 0) = some [2, 3] ∧
      listForEach links.flip 0 3 (links.prev 0) = some [3, 2] := by
  have hr : Rings (P := Nat) ⟨fun _ => 0, fun _ => 0⟩ ∅ fun _ => [] := ⟨by simp, by simp⟩
  have h : AllEnabled (P := Nat) ⟨∅, fun _ => []⟩
      [.init 0, .addTail 1 0, .addTail 3 0, .addBefore 2 3 0, .del 1 0] := by
    simp [AllEnabled, ListOp.Enabled, ListOp.effect, Lists.Unused]
  have hlist := (listOps_refine 0x100100 0x200200 hr h 0 (by simp [ListOp.effect])).1 3
  simpa [ListOp.effect] using hlist (by simp [ListOp.effect])

/-! ## The loop that may delete its node -/

/-- The links of the nodes and what they hold. -/
structure ListHeap (P α : Type) where
  links : Links P
  val : P → α

/-- `list_for_each_entry_safe` from two positions, with at most so many tests of its
condition.  The loop is left at the first code that is not zero. -/
def listForEachEntrySafe {τ : Type} (links : τ → Links P) (body : P → τ → τ × Int) (head : P) :
    Nat → P → P → τ → Option (τ × Int)
  | 0, _, _, _ => none
  | fuel + 1, pos, n, s =>
      if pos = head then some (s, 0)
      else
        let (s, err) := body pos s
        if err ≠ 0 then some (s, err)
        else listForEachEntrySafe links body head fuel n ((links s).next n) s

/-- A body that changes what its node holds, or deletes the node. -/
def entryBody {α σ : Type} (f : α → σ → Option α × σ × Int) (pos : P) (s : ListHeap P α × σ) :
    (ListHeap P α × σ) × Int :=
  let (entry, state, err) := f (s.1.val pos) s.2
  match entry with
  | some a => (({ s.1 with val := Function.update s.1.val pos a }, state), err)
  | none => (({ s.1 with links := listDel poison₁ poison₂ s.1.links pos }, state), err)

section

variable {α σ : Type} {f : α → σ → Option α × σ × Int}

/-- What the body does to a ring. -/
theorem entryBody_ring {heap : ListHeap P α} {state : σ}
    (hr : heap.links.Ring h (front ++ x :: back)) :
    ∃ heap' kept, entryBody poison₁ poison₂ f x (heap, state) =
        ((heap', (f (heap.val x) state).2.1), (f (heap.val x) state).2.2) ∧
      heap'.links.Ring h (front ++ kept ++ back) ∧ (kept = [x] ∨ kept = []) ∧
      kept.map heap'.val = (f (heap.val x) state).1.toList ∧
      ∀ y, y ≠ x → heap'.val y = heap.val y := by
  rw [entryBody]
  cases hentry : (f (heap.val x) state).1 with
  | some a =>
      refine ⟨{ heap with val := Function.update heap.val x a }, [x], ?_, ?_, .inl rfl, ?_, ?_⟩
      · simp [hentry]
      · simpa using hr
      · simp
      · exact fun y hy => Function.update_of_ne hy ..
  | none =>
      refine ⟨{ heap with links := listDel poison₁ poison₂ heap.links x }, [], ?_, ?_, .inr rfl,
        rfl, fun _ _ => rfl⟩
      · simp [hentry]
      · simpa using listDel_ring poison₁ poison₂ hr

/-- The loop from a node on. -/
theorem listForEachEntrySafe_ring {heap : ListHeap P α} {state : σ} {todo : List P}
    (hr : heap.links.Ring h (front ++ todo)) {pos : P} (hpos : (todo ++ [h]).head? = some pos)
    {fuel : Nat} (hfuel : todo.length < fuel) :
    ∃ heap' l', listForEachEntrySafe (fun s => s.1.links) (entryBody poison₁ poison₂ f) h fuel pos
        (heap.links.next pos) (heap, state) =
          some ((heap', (Loop.eachSafe f (todo.map heap.val) state).2.1),
            (Loop.eachSafe f (todo.map heap.val) state).2.2) ∧
      heap'.links.Ring h (front ++ l') ∧ l'.Sublist todo ∧
      l'.map heap'.val = (Loop.eachSafe f (todo.map heap.val) state).1 ∧
      ∀ y ∉ todo, heap'.val y = heap.val y := by
  induction todo generalizing heap state front pos fuel with
  | nil =>
      obtain ⟨fuel, rfl⟩ := Nat.exists_eq_succ_of_ne_zero (Nat.ne_of_gt hfuel)
      obtain rfl : h = pos := Option.some.inj hpos
      refine ⟨heap, [], ?_, hr, .refl _, rfl, fun _ _ => rfl⟩
      rw [listForEachEntrySafe, if_pos rfl]
      rfl
  | cons x todo induction =>
      obtain ⟨fuel, rfl⟩ := Nat.exists_eq_succ_of_ne_zero (Nat.ne_of_gt (Nat.zero_lt_of_lt hfuel))
      obtain rfl : x = pos := Option.some.inj hpos
      have hne : x ≠ h := by
        rintro rfl
        exact hr.notMem (List.mem_append_right _ (List.mem_cons_self ..))
      have hx : x ∉ todo :=
        (List.nodup_cons.mp (List.nodup_append.mp (List.nodup_cons.mp hr.nodup).2).2.1).1
      have hnext := (seg_append.mp hr.seg).2.head?_eq
      obtain ⟨heap', kept, hbody, hring, hkept, hvals, hother⟩ :=
        entryBody_ring poison₁ poison₂ hr
      have hsub : kept.Sublist [x] := by
        rcases hkept with rfl | rfl
        · exact .refl _
        · exact List.nil_sublist _
      have htodo : todo.map heap'.val = todo.map heap.val :=
        List.map_congr_left fun y hy => hother y fun heq => hx (heq ▸ hy)
      rw [listForEachEntrySafe, if_neg hne, hbody, List.map_cons]
      dsimp only
      by_cases herr : (f (heap.val x) state).2.2 = 0
      · rw [if_neg (not_not.mpr herr), Loop.eachSafe_cons_ok herr]
        obtain ⟨heap'', l', hloop, hring', hsub', hvals', hother'⟩ :=
          induction hring hnext (Nat.lt_of_succ_lt_succ hfuel)
        rw [htodo] at hloop hvals'
        refine ⟨heap'', kept ++ l', hloop, ?_, hsub.append hsub', ?_, fun y hy => ?_⟩
        · rw [← List.append_assoc]
          exact hring'
        · rw [List.map_append, hvals', ← hvals]
          refine congrArg (· ++ _) (List.map_congr_left fun y hy => hother' y fun hmem => ?_)
          exact hx (List.mem_singleton.mp (hsub.subset hy) ▸ hmem)
        · rw [List.mem_cons, not_or] at hy
          rw [hother' y hy.2, hother y hy.1]
      · rw [if_pos herr, Loop.eachSafe_cons_stop herr]
        refine ⟨heap', kept ++ todo, rfl, ?_, hsub.append (.refl _), ?_, fun y hy => ?_⟩
        · rw [← List.append_assoc]
          exact hring
        · rw [List.map_append, hvals, htodo]
        · exact hother y fun heq => hy (heq ▸ List.mem_cons_self ..)

/-- `list_for_each_entry_safe` ends, and it does to the nodes what `Loop.eachSafe` does
to the list of what they hold: the nodes that are left are in the list, in their order,
and hold what they should, and the state and the code are the same. -/
theorem listForEachEntrySafe_refines {heap : ListHeap P α} {state : σ}
    (hr : heap.links.Ring h l) {fuel : Nat} (hfuel : l.length < fuel) :
    ∃ heap' l', listForEachEntrySafe (fun s => s.1.links) (entryBody poison₁ poison₂ f) h fuel
        (heap.links.next h) (heap.links.next (heap.links.next h)) (heap, state) =
          some ((heap', (Loop.eachSafe f (l.map heap.val) state).2.1),
            (Loop.eachSafe f (l.map heap.val) state).2.2) ∧
      heap'.links.Ring h l' ∧ l'.Sublist l ∧
      l'.map heap'.val = (Loop.eachSafe f (l.map heap.val) state).1 ∧
      ∀ y ∉ l, heap'.val y = heap.val y := by
  have hr' : heap.links.Ring h ([] ++ l) := hr
  exact listForEachEntrySafe_ring poison₁ poison₂ hr' hr.seg.head?_eq hfuel

end

/-! ## The threads of a process -/

variable (state : Nat → TaskState)

/-- `process_infect_threads` on the list in memory. -/
def processInfectThreadsAt (head : P) (fuel : Nat) (heap : ListHeap P ThreadS) :
    Option ((ListHeap P ThreadS × Unit) × Int) :=
  listForEachEntrySafe (fun s => s.1.links)
    (entryBody poison₁ poison₂ fun t (_ : Unit) => ((taskInfect t (state t.pid).report).1, (),
      (taskInfect t (state t.pid).report).2))
    head fuel (heap.links.next head) (heap.links.next (heap.links.next head)) (heap, ())

/-- The entries of the dead threads leave the list in memory as they leave
`processInfectThreads`. -/
theorem processInfectThreadsAt_refines {heap : ListHeap P ThreadS} (hr : heap.links.Ring h l)
    {fuel : Nat} (hfuel : l.length < fuel) :
    ∃ heap' l', processInfectThreadsAt poison₁ poison₂ state h fuel heap =
        some ((heap', ()), (processInfectThreads state (l.map heap.val)).2) ∧
      heap'.links.Ring h l' ∧ l'.Sublist l ∧
      l'.map heap'.val = (processInfectThreads state (l.map heap.val)).1 := by
  have hr' : heap.links.Ring h ([] ++ l) := hr
  obtain ⟨heap', l', hloop, hring, hsub, hvals, _⟩ :=
    listForEachEntrySafe_ring poison₁ poison₂ hr' hr.seg.head?_eq hfuel
  exact ⟨heap', l', hloop, hring, hsub, hvals⟩

end

/-- `ctx->threads` with the threads 1 and 2. -/
def threadHeap : ListHeap Nat ThreadS where
  links := listAddTail (listAddTail (initListHead ⟨fun _ => 0, fun _ => 0⟩ 0) 1 0) 2 0
  val := fun pid => { pid := pid }

theorem threadHeap_ring : threadHeap.links.Ring 0 [1, 2] :=
  listAddTail_ring (listAddTail_ring initListHead_ring (by simp)) (by simp)

/-- Of two threads the first one is dead: the list in memory keeps the other one, which
is seized. -/
theorem deadThread_refines :
    let state := fun pid => if pid = 1 then TaskState.dead else TaskState.alive
    ∃ heap l, processInfectThreadsAt 0x100100 0x200200 state 0 3 threadHeap =
        some ((heap, ()), 0) ∧
      heap.links.Ring 0 l ∧ l.map heap.val = [⟨2, true⟩] := by
  intro state
  obtain ⟨heap, l, hloop, hring, _, hvals, _⟩ :=
    listForEachEntrySafe_refines 0x100100 0x200200 (f := fun t (_ : Unit) =>
      ((taskInfect t (state t.pid).report).1, (), (taskInfect t (state t.pid).report).2))
      threadHeap_ring (Nat.lt_succ_self 2)
  exact ⟨heap, l, hloop, hring, hvals⟩

end Nsb
