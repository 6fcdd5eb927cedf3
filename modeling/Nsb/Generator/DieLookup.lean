import Mathlib.Data.List.Sort
import Nsb.Generator.DebugInfo

/-!
# Finding DIEs

`_iter_DIEs` started at any DIE, `DebugInfoObject.iter_children` and
`DebugInfo.get_dio_by_pos`, against the trees of the compile units.

The table of the compile units holds negated offsets and a sentinel behind
them, so the first unit that is not in front of a negated position is the last
one that starts at or before the position.
-/

namespace Nsb

open Preorder (Entry EntryTree Node Place EntryBefore)

/-! ## Iterating from any DIE -/

/-- The subtrees of a compile unit, one for each DIE. -/
def CU.places (cu : CU) : List (Place Die) := cu.tree.places none cu.cuDieOffset

theorem CU.map_node_places (cu : CU) : cu.places.map Place.node = cu.nodes :=
  EntryTree.map_node_places cu.tree

theorem CU.within_of_mem_places {cu : CU} {place : Place Die} (h : place ∈ cu.places) :
    place.Within cu.dieAt cu.cuBoundary cu.nodes :=
  (EntryTree.within_of_mem_places cu.laid place h).mono cu.fits List.infix_rfl

/-- The entry of a DIE ends in front of the DIE that is iterated after it. -/
theorem CU.pairwise_nodes (cu : CU) : cu.nodes.Pairwise (EntryBefore cu.dieAt) :=
  (EntryTree.pairwise_nodes none cu.laid).1

theorem CU.pos_lt_of_before {cu : CU} {m n : Node Die} (h : EntryBefore cu.dieAt m n) :
    m.pos < n.pos :=
  Nat.lt_of_lt_of_le (Nat.lt_add_of_pos_right (cu.dieAt m.pos).size_pos) h

/-- The iterator yields the nodes of a subtree from its root on. -/
theorem CU.iterDIEs_place {cu : CU} {place : Place Die} (h : place ∈ cu.places) :
    cu.iterDIEs place.pos = .ok (place.tree.nodes none place.pos) :=
  CU.iterDIEs_eq (CU.within_of_mem_places h).laid (CU.within_of_mem_places h).upper

theorem CU.iterChildren_place {cu : CU} {place : Place Die} (h : place ∈ cu.places) :
    (cu.dio place.node).iterChildren = .ok ((place.tree.children place.pos).map cu.dio) := by
  have hlaid := (CU.within_of_mem_places h).laid
  have hdrop : ((place.tree.nodes none place.pos).drop 1).filter
      (fun m => m.parent = some place.pos) = place.tree.children place.pos := by
    rw [← Preorder.childrenOf_root_eq_children hlaid]
    cases place.tree <;> rfl
  have hpos : (cu.dio place.node).diePos = place.pos := rfl
  have hcu : (cu.dio place.node).cu = cu := rfl
  rw [Dio.iterChildren, hpos, hcu, CU.iterDIEs_place h, ← hdrop]
  rfl

/-- The iterator recovers the tree: from the top DIE it yields every DIE once,
in preorder and with its parent, from any DIE its subtree, and the children of
an object are the immediate ones in order. -/
theorem CU.iterDIEs_recovers_tree (cu : CU) :
    cu.iterDIEs cu.cuDieOffset = .ok cu.nodes ∧
      cu.nodes.Pairwise (fun m n => m.pos < n.pos) ∧
      cu.places.map Place.node = cu.nodes ∧
      ∀ place ∈ cu.places,
        cu.iterDIEs place.pos = .ok (place.tree.nodes none place.pos) ∧
        place.nodes <:+: cu.nodes ∧
        (cu.dio place.node).iterChildren = .ok ((place.tree.children place.pos).map cu.dio) := by
  refine ⟨cu.iterDIEs_top, cu.pairwise_nodes.imp CU.pos_lt_of_before, cu.map_node_places, ?_⟩
  intro place h
  exact ⟨CU.iterDIEs_place h, (CU.within_of_mem_places h).isInfix, CU.iterChildren_place h⟩

/-- An entry of `n + 1` bytes. -/
def entryOfSize (n : Nat) (node : Option (Die × Bool)) : Entry Die := ⟨n + 1, Nat.succ_pos n, node⟩

/-- The entries of a unit whose function has a variable of its own. -/
def nestedAt (off : Nat) (top func inner outer : Die) (pos : Nat) : Entry Die :=
  if pos = off + 11 then entryOfSize 9 (some (top, true))
  else if pos = off + 21 then entryOfSize 8 (some (func, true))
  else if pos = off + 30 then entryOfSize 9 (some (inner, false))
  else if pos = off + 41 then entryOfSize 8 (some (outer, false))
  else entryOfSize 0 none

/-- Their tree. -/
def nestedTree (top func inner outer : Die) : EntryTree Die :=
  .branch top 10 [.branch func 9 [.leaf inner 10] 1, .leaf outer 9] 1

theorem nestedTree_laid (off : Nat) (top func inner outer : Die) :
    (nestedTree top func inner outer).LaidOut (nestedAt off top func inner outer) (off + 11) := by
  simp [nestedTree, nestedAt, entryOfSize, EntryTree.LaidOut, EntryTree.LaidOuts, EntryTree.size,
    EntryTree.sizes, Nat.add_assoc]

theorem nestedTree_fits (off : Nat) (top func inner outer : Die) :
    off + 11 + (nestedTree top func inner outer).size ≤ off + 47 + 4 := by
  simp [nestedTree, EntryTree.size, EntryTree.sizes, Nat.add_assoc]

/-- A compile unit with a function, a variable in it and a DIE after it. -/
def nestedUnit (off : Nat) (top func inner outer : Die) : CU where
  cuOffset := off
  unitLength := 47
  initialLengthFieldSize := 4
  cuDieOffset := off + 11
  dieAt := nestedAt off top func inner outer
  tree := nestedTree top func inner outer
  laid := nestedTree_laid off top func inner outer
  fits := nestedTree_fits off top func inner outer

/-- A unit with a function `work` that has a variable `state`. -/
def workUnit (off : Nat) : CU :=
  nestedUnit off (unitDie "a.c") (funcDie "work" 0x1000) (varDie "state" 0x3000)
    (varDie "count" 0x3008)

/-- From the offset of the function on, the iterator yields the function and its
variable, and not the variable after it. -/
theorem workUnit_function :
    (workUnit 0).iterDIEs 21 =
        .ok [⟨21, funcDie "work" 0x1000, none⟩, ⟨30, varDie "state" 0x3000, some 21⟩] ∧
      ((workUnit 0).dio ⟨21, funcDie "work" 0x1000, some 11⟩).iterChildren =
        .ok [(workUnit 0).dio ⟨30, varDie "state" 0x3000, some 21⟩] := by
  let place : Place Die :=
    ⟨21, .branch (funcDie "work" 0x1000) 9 [.leaf (varDie "state" 0x3000) 10] 1, some 11⟩
  have hmem : place ∈ (workUnit 0).places := .tail _ (.head _)
  obtain ⟨_, _, _, h⟩ := (workUnit 0).iterDIEs_recovers_tree
  exact ⟨(h place hmem).1, (h place hmem).2.2⟩

/-! ## Bisection -/

/-- `bisect` on the test gives the place of the first element that passes. -/
theorem getElem?_bisect {α : Type} (before : α → Bool) (a : List α) :
    a[bisect before a]? = a.find? before := by
  induction a with
  | nil => rfl
  | cons x a induction =>
      rw [bisect, List.takeWhile_cons, List.find?_cons]
      cases hx : before x with
      | true => rfl
      | false =>
          rw [bisect] at induction
          simpa using induction

/-- Behind a sentinel, one place in front of that is the last element that
does not pass. -/
theorem getElem?_length_takeWhile {α : Type} (p : α → Bool) (a : List α) :
    (none :: a.map some)[(a.takeWhile p).length]? = some (a.takeWhile p).getLast? := by
  have hsplit := List.takeWhile_append_dropWhile (p := p) (l := a)
  generalize a.takeWhile p = front at hsplit ⊢
  generalize a.dropWhile p = back at hsplit
  subst hsplit
  rcases List.eq_nil_or_concat front with rfl | ⟨init, x, rfl⟩
  · rfl
  · simp

/-- The last DIE that starts at or before a position. -/
def CU.lastDie (cu : CU) (pos : Nat) : Option (Node Die) :=
  (cu.nodes.takeWhile fun n => n.pos ≤ pos).getLast?

/-- The bisection of `get_dio_by_pos` in a compile unit. -/
theorem CU.bisect_nodes (cu : CU) (pos : Nat) :
    bisect (fun p => (pos : Int) < p) (-1 :: cu.nodes.map fun n => (n.pos : Int)) =
      (cu.nodes.takeWhile fun n => n.pos ≤ pos).length + 1 := by
  have hnot : ∀ n : Node Die, (!decide ((pos : Int) < n.pos)) = decide (n.pos ≤ pos) := by
    intro n
    rw [← decide_not]
    exact decide_eq_decide.mpr (by omega)
  rw [bisect, List.takeWhile_cons_of_pos (by simp), List.length_cons,
    List.takeWhile_map, List.length_map]
  simp only [Function.comp_def, hnot]

/-- `get_dio_by_pos` takes the first unit that is not in front of the negated
position, and the last DIE of it that starts at or before the position. -/
theorem DebugInfo.getDioByPos_eq (di : DebugInfo) (pos : Nat) :
    di.getDioByPos pos =
      match di.cuPos.find? fun e => -(pos : Int) ≤ e.1 with
      | none => .error .indexError
      | some (_, none) => .ok none
      | some (_, some cu) =>
          match cu.lastDie pos with
          | none => .ok none
          | some die =>
              if die.pos ≤ pos ∧ pos < die.pos + (cu.dieAt die.pos).size then
                .ok (some (cu.dio die))
              else .error (.exception "Position is outside DIE") := by
  rw [DebugInfo.getDioByPos, getElem?_bisect]
  rcases di.cuPos.find? _ with _ | ⟨key, _ | cu⟩
  · rfl
  · rfl
  · dsimp only
    rw [CU.iterDIEs_top]
    simp only [bind, Except.bind, CU.bisect_nodes, Nat.add_sub_cancel, getElem?_length_takeWhile,
      CU.lastDie]
    rcases (cu.nodes.takeWhile _).getLast? with _ | die
    · rfl
    · rfl

/-! ## The table of the compile units -/

/-- Compile units at increasing, non-overlapping offsets, each with its DIEs
behind its own offset. -/
structure UnitsApart (cus : List CU) : Prop where
  apart : cus.Pairwise fun c d => c.cuBoundary ≤ d.cuOffset
  header : ∀ cu ∈ cus, cu.cuOffset ≤ cu.cuDieOffset

theorem CU.range_of_mem_nodes {cu : CU} {n : Node Die} (h : n ∈ cu.nodes) :
    cu.cuDieOffset ≤ n.pos ∧ n.pos + (cu.dieAt n.pos).size ≤ cu.cuBoundary := by
  refine ⟨(EntryTree.nodes_range cu.laid n h).1.1, ?_⟩
  exact Nat.le_trans ((EntryTree.pairwise_nodes none cu.laid).2 n h) cu.fits

theorem CU.cuDieOffset_lt_cuBoundary (cu : CU) : cu.cuDieOffset < cu.cuBoundary :=
  Nat.lt_of_lt_of_le (Nat.lt_add_of_pos_right (EntryTree.size_pos cu.laid)) cu.fits

/-- Of two units that are apart, the one that holds a position is the last that
starts at or before it. -/
theorem UnitsApart.eq_of_le {cus : List CU} (h : UnitsApart cus) {c cu : CU} (hc : c ∈ cus)
    (hcu : cu ∈ cus) {pos : Nat} (hle : cu.cuOffset ≤ c.cuOffset) (hpos : c.cuOffset ≤ pos)
    (hlt : pos < cu.cuBoundary) : c = cu := by
  have hclt := Nat.lt_of_le_of_lt (h.header c hc) c.cuDieOffset_lt_cuBoundary
  obtain ⟨i, hi, rfl⟩ := List.getElem_of_mem hc
  obtain ⟨j, hj, rfl⟩ := List.getElem_of_mem hcu
  have hapart := List.pairwise_iff_getElem.mp h.apart
  rcases Nat.lt_trichotomy i j with hij | rfl | hij
  · have := hapart i j hi hj hij
    omega
  · rfl
  · have := hapart j i hj hi hij
    omega

theorem DebugInfo.addCUs_cuPos {cus : List CU} {di di' : DebugInfo}
    (h : DebugInfo.addCUs cus di = .ok di') :
    di'.cuPos = di.cuPos ++ cus.map fun cu => (-(cu.cuOffset : Int), some cu) := by
  induction cus generalizing di with
  | nil =>
      cases h
      exact (List.append_nil _).symm
  | cons cu cus induction =>
      rw [DebugInfo.addCUs] at h
      obtain ⟨_, _, h⟩ := bind_eq_ok_iff.mp h
      rw [induction h, List.map_cons, List.append_assoc]
      rfl

/-- The table holds the units by their negated offsets and the sentinel, in
order. -/
theorem DebugInfo.cuPos_of_init {cus : List CU} {di : DebugInfo}
    (h : DebugInfo.init (some cus) = .ok di) :
    di.cuPos.Perm (cus.map (fun cu => (-(cu.cuOffset : Int), some cu)) ++ [(1, none)]) ∧
      di.cuPos.Pairwise fun a b => a.1 ≤ b.1 := by
  obtain ⟨di', hdi', hret⟩ := bind_eq_ok_iff.mp h
  cases hret
  have hpos := DebugInfo.addCUs_cuPos hdi'
  rw [List.nil_append] at hpos
  constructor
  · rw [← hpos]
    exact List.perm_insertionSort _ _
  · exact List.pairwise_insertionSort _ _

theorem DebugInfo.mem_cuPos {cus : List CU} {di : DebugInfo}
    (h : DebugInfo.init (some cus) = .ok di) {e : Int × Option CU} :
    e ∈ di.cuPos ↔ (∃ cu ∈ cus, e = (-(cu.cuOffset : Int), some cu)) ∨ e = (1, none) := by
  rw [(DebugInfo.cuPos_of_init h).1.mem_iff, List.mem_append, List.mem_map, List.mem_singleton]
  simp only [eq_comm]

/-- In a list sorted by a key, the first element that passes a bound has the
least key of those that do. -/
theorem le_of_find?_eq_some {α : Type} {key : α → Int} {bound : Int} {l : List α} {e x : α}
    (hsorted : l.Pairwise fun a b => key a ≤ key b) (hx : x ∈ l) (hbound : bound ≤ key x)
    (h : l.find? (fun a => bound ≤ key a) = some e) : key e ≤ key x := by
  obtain ⟨_, front, back, rfl, hfront⟩ := List.find?_eq_some_iff_append.mp h
  rw [List.mem_append, List.mem_cons] at hx
  rcases hx with hx | rfl | hx
  · have hnot := hfront x hx
    rw [Bool.not_eq_true', decide_eq_false_iff_not] at hnot
    exact absurd hbound hnot
  · exact Int.le_refl _
  · exact (List.pairwise_cons.mp (List.pairwise_append.mp hsorted).2.1).1 x hx

/-- The unit whose bytes hold the position is the one that is looked at. -/
theorem DebugInfo.find?_cuPos {cus : List CU} {di : DebugInfo} (hcus : UnitsApart cus)
    (h : DebugInfo.init (some cus) = .ok di) {cu : CU} (hcu : cu ∈ cus) {pos : Nat}
    (hle : cu.cuOffset ≤ pos) (hlt : pos < cu.cuBoundary) :
    di.cuPos.find? (fun e => -(pos : Int) ≤ e.1) = some (-(cu.cuOffset : Int), some cu) := by
  have hmem : (-(cu.cuOffset : Int), some cu) ∈ di.cuPos :=
    (DebugInfo.mem_cuPos h).mpr (.inl ⟨cu, hcu, rfl⟩)
  have hbound : -(pos : Int) ≤ -(cu.cuOffset : Int) := by omega
  cases hfind : di.cuPos.find? fun e => -(pos : Int) ≤ e.1 with
  | none =>
      have hnone := List.find?_eq_none.mp hfind _ hmem
      rw [decide_eq_true_eq] at hnone
      exact absurd hbound hnone
  | some e =>
      have hleast := le_of_find?_eq_some (DebugInfo.cuPos_of_init h).2 hmem hbound hfind
      have hpass := List.find?_some hfind
      rw [decide_eq_true_eq] at hpass
      rcases (DebugInfo.mem_cuPos h).mp (List.mem_of_find?_eq_some hfind) with
        ⟨c, hc, rfl⟩ | rfl
      · dsimp only at hleast hpass
        rw [hcus.eq_of_le hc hcu (by omega) (by omega) hlt]
      · dsimp only at hleast
        omega

/-- The DIE whose bytes hold the position is the last that starts at or before
it. -/
theorem CU.lastDie_eq {cu : CU} {n : Node Die} (h : n ∈ cu.nodes) {pos : Nat}
    (hle : n.pos ≤ pos) (hlt : pos < n.pos + (cu.dieAt n.pos).size) :
    cu.lastDie pos = some n := by
  obtain ⟨front, back, hnodes⟩ := List.append_of_mem h
  have hpair := cu.pairwise_nodes
  rw [hnodes, List.pairwise_append, List.pairwise_cons] at hpair
  obtain ⟨_, ⟨hback, _⟩, hfront⟩ := hpair
  have hkeep : ∀ m ∈ front, decide (m.pos ≤ pos) = true := by
    intro m hm
    have := CU.pos_lt_of_before (hfront m hm n List.mem_cons_self)
    rw [decide_eq_true_eq]
    omega
  have hstop : back.takeWhile (fun m => decide (m.pos ≤ pos)) = [] := by
    cases back with
    | nil => rfl
    | cons m back =>
        have hbefore : n.pos + (cu.dieAt n.pos).size ≤ m.pos := hback m List.mem_cons_self
        exact List.takeWhile_cons_of_neg (by rw [decide_eq_true_eq]; omega)
  rw [CU.lastDie, hnodes, List.takeWhile_append_of_pos hkeep,
    List.takeWhile_cons_of_pos (by simpa using hle), hstop, List.getLast?_append]
  rfl

theorem CU.mem_nodes_of_lastDie {cu : CU} {n : Node Die} {pos : Nat}
    (h : cu.lastDie pos = some n) : n ∈ cu.nodes :=
  (List.takeWhile_prefix _).mem (List.mem_of_getLast? h)

/-- `get_dio_by_pos` returns the DIE whose bytes hold the position, with its
parent, and without such a DIE it returns nothing or raises. -/
theorem DebugInfo.getDioByPos_exact {cus : List CU} {di : DebugInfo} (hcus : UnitsApart cus)
    (h : DebugInfo.init (some cus) = .ok di) (pos : Nat) :
    (∀ cu ∈ cus, ∀ n ∈ cu.nodes, n.pos ≤ pos → pos < n.pos + (cu.dieAt n.pos).size →
      di.getDioByPos pos = .ok (some (cu.dio n))) ∧
    ((∀ cu ∈ cus, ∀ n ∈ cu.nodes, ¬ (n.pos ≤ pos ∧ pos < n.pos + (cu.dieAt n.pos).size)) →
      di.getDioByPos pos = .ok none ∨ ∃ e, di.getDioByPos pos = .error e) := by
  rw [DebugInfo.getDioByPos_eq]
  constructor
  · intro cu hcu n hn hle hlt
    obtain ⟨hlower, hupper⟩ := CU.range_of_mem_nodes hn
    have hheader := hcus.header cu hcu
    rw [DebugInfo.find?_cuPos hcus h hcu (by omega) (by omega)]
    dsimp only
    rw [CU.lastDie_eq hn hle hlt]
    exact if_pos ⟨hle, hlt⟩
  · intro hnone
    split
    · exact .inr ⟨_, rfl⟩
    · exact .inl rfl
    · next key cu hfind =>
      split
      · exact .inl rfl
      · next n hlast =>
        rcases (DebugInfo.mem_cuPos h).mp (List.mem_of_find?_eq_some hfind) with
          ⟨c, hc, heq⟩ | heq
        · cases heq
          rw [if_neg (hnone cu hc n (CU.mem_nodes_of_lastDie hlast))]
          exact .inr ⟨_, rfl⟩
        · cases heq

theorem workUnit_readable (off : Nat) : (workUnit off).Readable := ⟨rfl, rfl, rfl⟩

/-- Two units that follow each other.  The last byte of the variable of the
function in the second is found in its DIE. -/
theorem workUnit_last_byte :
    ∃ di, DebugInfo.init (some [workUnit 0, workUnit 51]) = .ok di ∧
      di.getDioByPos 90 =
        .ok (some ((workUnit 51).dio ⟨81, varDie "state" 0x3000, some 72⟩)) := by
  have hread : ∀ cu ∈ [workUnit 0, workUnit 51], cu.Readable := by
    simp [workUnit_readable]
  have hapart : UnitsApart [workUnit 0, workUnit 51] :=
    ⟨by simp [workUnit, nestedUnit, CU.cuBoundary], by simp [workUnit, nestedUnit]⟩
  obtain ⟨di, hdi⟩ := DebugInfo.init_eq_ok hread
  refine ⟨di, hdi, ?_⟩
  exact (DebugInfo.getDioByPos_exact hapart hdi 90).1 (workUnit 51) (.tail _ (.head _))
    ⟨81, varDie "state" 0x3000, some 72⟩ (.tail _ (.tail _ (.head _))) (by simp) (by
      simp [workUnit, nestedUnit, nestedAt, entryOfSize])

end Nsb
