import Mathlib.Data.List.Basic
import Mathlib.Data.List.Chain

/-!
# Trees as a stream of entries

A tree written in preorder.  Every node is an entry that says whether the node
has a list of children.  Such a list follows its node and ends with a null
entry.  An entry has a size and stands at an offset, the offset of the entry
before it plus its size.

`EntryTree.nodes` lists the nodes of a tree in this order, each with its offset
and with the offset of its parent.  `exists_subtree` finds the tree below a node
of a tree that is laid out in a stream, with the nodes whose parent the node is.
`EntryTree.places` lists the subtrees themselves, in the order of their roots.
`EntryTree.spots` lists the nodes with all the nodes around them, and
`EntryTree.ways` with the values of these.
-/

namespace Preorder

variable {α : Type}

/-! ## Streams and trees -/

/-- An entry of a stream.  A node has a value and says whether children follow.
A null entry has no node. -/
structure Entry (α : Type) where
  size : Nat
  size_pos : 0 < size
  node : Option (α × Bool)

/-- A tree with the sizes of its entries.  A node that has a list of children
has the null entry after it, also when the list is empty. -/
inductive EntryTree (α : Type) where
  | leaf (value : α) (size : Nat)
  | branch (value : α) (size : Nat) (children : List (EntryTree α)) (nullSize : Nat)

/-- The value of the root. -/
def EntryTree.value : EntryTree α → α
  | .leaf a _ => a
  | .branch a _ _ _ => a

mutual

/-- The size of all the entries of a tree. -/
def EntryTree.size : EntryTree α → Nat
  | .leaf _ n => n
  | .branch _ n ts k => n + EntryTree.sizes ts + k

/-- The size of all the entries of a list of trees. -/
def EntryTree.sizes : List (EntryTree α) → Nat
  | [] => 0
  | t :: ts => t.size + EntryTree.sizes ts

end

mutual

/-- The entries of a tree stand in the stream, from an offset on. -/
def EntryTree.LaidOut (entry : Nat → Entry α) (off : Nat) : EntryTree α → Prop
  | .leaf a n => (entry off).size = n ∧ (entry off).node = some (a, false)
  | .branch a n ts k =>
      (entry off).size = n ∧ (entry off).node = some (a, true) ∧
        EntryTree.LaidOuts entry (off + n) ts ∧ (entry (off + n + EntryTree.sizes ts)).size = k ∧
        (entry (off + n + EntryTree.sizes ts)).node = none

/-- The entries of a list of trees stand in the stream, from an offset on. -/
def EntryTree.LaidOuts (entry : Nat → Entry α) (off : Nat) : List (EntryTree α) → Prop
  | [] => True
  | t :: ts => t.LaidOut entry off ∧ EntryTree.LaidOuts entry (off + t.size) ts

end

/-- A node where it stands, with the offset of its parent. -/
structure Node (α : Type) where
  pos : Nat
  value : α
  parent : Option Nat

mutual

/-- The nodes of a tree in preorder. -/
def EntryTree.nodes (parent : Option Nat) (off : Nat) : EntryTree α → List (Node α)
  | .leaf a _ => [⟨off, a, parent⟩]
  | .branch a n ts _ => ⟨off, a, parent⟩ :: EntryTree.forest (some off) (off + n) ts

/-- The nodes of a list of trees in preorder. -/
def EntryTree.forest (parent : Option Nat) (off : Nat) : List (EntryTree α) → List (Node α)
  | [] => []
  | t :: ts => t.nodes parent off ++ EntryTree.forest parent (off + t.size) ts

end

/-- The nodes below the node at `pos`, one level down. -/
def childrenOf (pos : Nat) (nodes : List (Node α)) : List (Node α) :=
  nodes.filter fun n => n.parent = some pos

/-- The root is the first node, and the entry of the tree. -/
theorem EntryTree.nodes_eq_cons (parent : Option Nat) (off : Nat) (t : EntryTree α) :
    ∃ rest, t.nodes parent off = ⟨off, t.value, parent⟩ :: rest := by
  cases t with
  | leaf a n => exact ⟨[], rfl⟩
  | branch a n ts k => exact ⟨EntryTree.forest (some off) (off + n) ts, rfl⟩

theorem EntryTree.LaidOut.root {entry : Nat → Entry α} {off : Nat} {t : EntryTree α}
    (h : t.LaidOut entry off) : ∃ flag, (entry off).node = some (t.value, flag) := by
  cases t with
  | leaf a n => exact ⟨false, h.2⟩
  | branch a n ts k => exact ⟨true, h.2.1⟩

/-! ## Offsets -/

theorem EntryTree.size_pos {entry : Nat → Entry α} {off : Nat} {t : EntryTree α}
    (h : t.LaidOut entry off) : 0 < t.size := by
  cases t with
  | leaf a n =>
      rw [EntryTree.size, ← h.1]
      exact (entry off).size_pos
  | branch a n ts k =>
      have hpos := (entry off).size_pos
      rw [h.1] at hpos
      rw [EntryTree.size]
      omega

mutual

/-- A node of a tree stands within it, and so does its parent unless the node
is the root. -/
theorem EntryTree.nodes_range {entry : Nat → Entry α} {parent : Option Nat} {off : Nat} :
    {t : EntryTree α} → t.LaidOut entry off → ∀ n ∈ t.nodes parent off,
      (off ≤ n.pos ∧ n.pos < off + t.size) ∧
        (n.parent = parent ∨ ∃ q, n.parent = some q ∧ off ≤ q ∧ q < off + t.size)
  | .leaf a k, h, n, hn => by
      have hpos := EntryTree.size_pos h
      rw [EntryTree.nodes, List.mem_singleton] at hn
      subst hn
      exact ⟨⟨Nat.le_refl _, by show off < _; omega⟩, .inl rfl⟩
  | .branch a k ts j, h, n, hn => by
      have hpos := EntryTree.size_pos h
      rw [EntryTree.nodes, List.mem_cons] at hn
      rcases hn with rfl | hn
      · exact ⟨⟨Nat.le_refl _, by show off < _; omega⟩, .inl rfl⟩
      · obtain ⟨hrange, hparent⟩ := EntryTree.forest_range h.2.2.1 n hn
        rw [EntryTree.size] at hpos ⊢
        refine ⟨by omega, .inr ?_⟩
        rcases hparent with hp | ⟨q, hq, hle, hlt⟩
        · exact ⟨off, hp, Nat.le_refl _, by omega⟩
        · exact ⟨q, hq, by omega, by omega⟩

theorem EntryTree.forest_range {entry : Nat → Entry α} {parent : Option Nat} {off : Nat} :
    {ts : List (EntryTree α)} → EntryTree.LaidOuts entry off ts →
      ∀ n ∈ EntryTree.forest parent off ts,
      (off ≤ n.pos ∧ n.pos < off + EntryTree.sizes ts) ∧
        (n.parent = parent ∨ ∃ q, n.parent = some q ∧ off ≤ q ∧ q < off + EntryTree.sizes ts)
  | [], _, _, hn => nomatch hn
  | t :: ts, h, n, hn => by
      rw [EntryTree.forest, List.mem_append] at hn
      rw [EntryTree.sizes]
      rcases hn with hn | hn
      · obtain ⟨hrange, hparent⟩ := EntryTree.nodes_range h.1 n hn
        exact ⟨by omega, hparent.imp_right fun ⟨q, hq, _, _⟩ => ⟨q, hq, by omega, by omega⟩⟩
      · obtain ⟨hrange, hparent⟩ := EntryTree.forest_range h.2 n hn
        exact ⟨by omega, hparent.imp_right fun ⟨q, hq, _, _⟩ => ⟨q, hq, by omega, by omega⟩⟩

end

/-- The children of a node do not stand in a tree that the node is not in and
whose root is not one of them. -/
theorem childrenOf_nodes_eq_nil {entry : Nat → Entry α} {parent : Option Nat} {off pos : Nat}
    {t : EntryTree α} (h : t.LaidOut entry off) (hparent : parent ≠ some pos)
    (hpos : pos < off ∨ off + t.size ≤ pos) : childrenOf pos (t.nodes parent off) = [] := by
  rw [childrenOf, List.filter_eq_nil_iff]
  intro n hn hpar
  rw [decide_eq_true_eq] at hpar
  rcases (EntryTree.nodes_range h n hn).2 with hp | ⟨q, hq, hle, hlt⟩
  · exact hparent (hp.symm.trans hpar)
  · rw [hq, Option.some.injEq] at hpar
    omega

theorem childrenOf_forest_eq_nil {entry : Nat → Entry α} {parent : Option Nat} {off pos : Nat}
    {ts : List (EntryTree α)} (h : EntryTree.LaidOuts entry off ts) (hparent : parent ≠ some pos)
    (hpos : pos < off ∨ off + EntryTree.sizes ts ≤ pos) :
    childrenOf pos (EntryTree.forest parent off ts) = [] := by
  rw [childrenOf, List.filter_eq_nil_iff]
  intro n hn hpar
  rw [decide_eq_true_eq] at hpar
  rcases (EntryTree.forest_range h n hn).2 with hp | ⟨q, hq, hle, hlt⟩
  · exact hparent (hp.symm.trans hpar)
  · rw [hq, Option.some.injEq] at hpar
    omega

/-! ## Subtrees -/

theorem childrenOf_append (pos : Nat) (l l' : List (Node α)) :
    childrenOf pos (l ++ l') = childrenOf pos l ++ childrenOf pos l' :=
  List.filter_append ..

theorem childrenOf_cons_of_ne {pos : Nat} {n : Node α} (l : List (Node α))
    (h : n.parent ≠ some pos) : childrenOf pos (n :: l) = childrenOf pos l := by
  rw [childrenOf, List.filter_cons_of_neg (by simpa using h), childrenOf]

/-- The tree of the node at `pos` in a stream: it is laid out there, within the
bounds, and the children of the node are in it. -/
structure Subtree (entry : Nat → Entry α) (off stop : Nat) (n : Node α) (nodes : List (Node α))
    (t : EntryTree α) : Prop where
  laid : t.LaidOut entry n.pos
  value : t.value = n.value
  lower : off ≤ n.pos
  upper : n.pos + t.size ≤ stop
  children : childrenOf n.pos nodes = childrenOf n.pos (t.nodes none n.pos)

/-- The children of the root do not depend on what its parent is said to be. -/
theorem childrenOf_root {parent : Option Nat} {off : Nat} {t : EntryTree α}
    (hparent : parent ≠ some off) :
    childrenOf off (t.nodes parent off) = childrenOf off (t.nodes none off) := by
  cases t with
  | leaf a n =>
      rw [EntryTree.nodes, EntryTree.nodes, childrenOf_cons_of_ne _ hparent,
        childrenOf_cons_of_ne _ (Option.some_ne_none _).symm]
  | branch a n ts k =>
      rw [EntryTree.nodes, EntryTree.nodes, childrenOf_cons_of_ne _ hparent,
        childrenOf_cons_of_ne _ (Option.some_ne_none _).symm]

mutual

/-- Every node of a tree that is laid out in a stream has a subtree. -/
theorem exists_subtree {entry : Nat → Entry α} {parent : Option Nat} {off : Nat} :
    {t : EntryTree α} → t.LaidOut entry off → (∀ q, parent = some q → q < off) →
      ∀ n ∈ t.nodes parent off,
        ∃ s, Subtree entry off (off + t.size) n (t.nodes parent off) s
  | .leaf a k, h, hparent, n, hn => by
      have hne : parent ≠ some off := fun hp => Nat.lt_irrefl _ (hparent off hp)
      rw [EntryTree.nodes, List.mem_singleton] at hn
      subst hn
      exact ⟨.leaf a k, h, rfl, Nat.le_refl _, Nat.le_refl _, childrenOf_root hne⟩
  | .branch a k ts j, h, hparent, n, hn => by
      have hne : parent ≠ some off := fun hp => Nat.lt_irrefl _ (hparent off hp)
      have hsize := (entry off).size_pos
      rw [h.1] at hsize
      rw [EntryTree.nodes, List.mem_cons] at hn
      rcases hn with rfl | hn
      · exact ⟨.branch a k ts j, h, rfl, Nat.le_refl _, Nat.le_refl _, childrenOf_root hne⟩
      · have hlt : ∀ q, some off = some q → q < off + k := by
          rintro q ⟨⟩
          omega
        obtain ⟨s, hs⟩ := exists_subtrees h.2.2.1 hlt n hn
        have hlower := hs.lower
        have hupper := hs.upper
        refine ⟨s, hs.laid, hs.value, by omega, by rw [EntryTree.size]; omega, ?_⟩
        rw [EntryTree.nodes, childrenOf_cons_of_ne, hs.children]
        intro hp
        have := hparent n.pos hp
        omega

theorem exists_subtrees {entry : Nat → Entry α} {parent : Option Nat} {off : Nat} :
    {ts : List (EntryTree α)} → EntryTree.LaidOuts entry off ts → (∀ q, parent = some q → q < off) →
      ∀ n ∈ EntryTree.forest parent off ts,
        ∃ s, Subtree entry off (off + EntryTree.sizes ts) n (EntryTree.forest parent off ts) s
  | [], _, _, _, hn => nomatch hn
  | t :: ts, h, hparent, n, hn => by
      have hne : ∀ {pos}, off ≤ pos → parent ≠ some pos :=
        fun hle hp => absurd (hparent _ hp) (Nat.not_lt.mpr hle)
      rw [EntryTree.forest, List.mem_append] at hn
      rw [EntryTree.forest, EntryTree.sizes]
      rcases hn with hn | hn
      · obtain ⟨s, hs⟩ := exists_subtree h.1 hparent n hn
        have hupper := hs.upper
        have hpos := EntryTree.size_pos hs.laid
        refine ⟨s, hs.laid, hs.value, hs.lower, by omega, ?_⟩
        rw [childrenOf_append, hs.children,
          childrenOf_forest_eq_nil h.2 (hne hs.lower) (.inl (by omega)), List.append_nil]
      · have hlt : ∀ q, parent = some q → q < off + t.size :=
          fun q hq => Nat.lt_add_right _ (hparent q hq)
        obtain ⟨s, hs⟩ := exists_subtrees h.2 hlt n hn
        have hlower := hs.lower
        have hupper := hs.upper
        refine ⟨s, hs.laid, hs.value, by omega, by omega, ?_⟩
        rw [childrenOf_append, hs.children,
          childrenOf_nodes_eq_nil h.1 (hne (by omega)) (.inr hlower), List.nil_append]

end

/-! ## All subtrees -/

/-- A subtree where it stands, with the offset of the parent of its root. -/
structure Place (α : Type) where
  pos : Nat
  tree : EntryTree α
  parent : Option Nat

/-- The root of the subtree. -/
def Place.node (place : Place α) : Node α := ⟨place.pos, place.tree.value, place.parent⟩

/-- The nodes of the subtree. -/
def Place.nodes (place : Place α) : List (Node α) := place.tree.nodes place.parent place.pos

mutual

/-- The subtrees of a tree, in preorder of their roots. -/
def EntryTree.places (parent : Option Nat) (off : Nat) : EntryTree α → List (Place α)
  | .leaf a n => [⟨off, .leaf a n, parent⟩]
  | .branch a n ts k =>
      ⟨off, .branch a n ts k, parent⟩ :: EntryTree.forestPlaces (some off) (off + n) ts

/-- The subtrees of a list of trees, in preorder of their roots. -/
def EntryTree.forestPlaces (parent : Option Nat) (off : Nat) :
    List (EntryTree α) → List (Place α)
  | [] => []
  | t :: ts => t.places parent off ++ EntryTree.forestPlaces parent (off + t.size) ts

end

/-- The roots of trees that follow each other. -/
def EntryTree.roots (parent : Option Nat) (off : Nat) : List (EntryTree α) → List (Node α)
  | [] => []
  | t :: ts => ⟨off, t.value, parent⟩ :: EntryTree.roots parent (off + t.size) ts

/-- The immediate children of a root. -/
def EntryTree.children (off : Nat) : EntryTree α → List (Node α)
  | .leaf _ _ => []
  | .branch _ n ts _ => EntryTree.roots (some off) (off + n) ts

mutual

/-- The nodes of a tree are the roots of its subtrees. -/
theorem EntryTree.map_node_places {parent : Option Nat} {off : Nat} :
    (t : EntryTree α) → (t.places parent off).map Place.node = t.nodes parent off
  | .leaf a n => rfl
  | .branch a n ts k => by
      rw [EntryTree.places, EntryTree.nodes, List.map_cons, EntryTree.map_node_forestPlaces ts]
      rfl

theorem EntryTree.map_node_forestPlaces {parent : Option Nat} {off : Nat} :
    (ts : List (EntryTree α)) →
      (EntryTree.forestPlaces parent off ts).map Place.node = EntryTree.forest parent off ts
  | [] => rfl
  | t :: ts => by
      rw [EntryTree.forestPlaces, EntryTree.forest, List.map_append,
        EntryTree.map_node_places t, EntryTree.map_node_forestPlaces ts]

end

/-- What holds of the subtree at a place of a stream: it is laid out there,
within the bounds, and its nodes follow each other in a list. -/
structure Place.Within (entry : Nat → Entry α) (stop : Nat) (nodes : List (Node α))
    (place : Place α) : Prop where
  laid : place.tree.LaidOut entry place.pos
  upper : place.pos + place.tree.size ≤ stop
  isInfix : place.nodes <:+: nodes

theorem Place.Within.mono {entry : Nat → Entry α} {stop stop' : Nat} {nodes nodes' : List (Node α)}
    {place : Place α} (h : place.Within entry stop nodes) (hstop : stop ≤ stop')
    (hnodes : nodes <:+: nodes') : place.Within entry stop' nodes' :=
  ⟨h.laid, Nat.le_trans h.upper hstop, h.isInfix.trans hnodes⟩

mutual

/-- Every subtree of a tree that is laid out in a stream is laid out there. -/
theorem EntryTree.within_of_mem_places {entry : Nat → Entry α} {parent : Option Nat} {off : Nat} :
    {t : EntryTree α} → t.LaidOut entry off → ∀ place ∈ t.places parent off,
      place.Within entry (off + t.size) (t.nodes parent off)
  | .leaf a n, h, place, hmem => by
      rw [EntryTree.places, List.mem_singleton] at hmem
      subst hmem
      exact ⟨h, Nat.le_refl _, List.infix_rfl⟩
  | .branch a n ts k, h, place, hmem => by
      rw [EntryTree.places, List.mem_cons] at hmem
      rcases hmem with rfl | hmem
      · exact ⟨h, Nat.le_refl _, List.infix_rfl⟩
      · refine (EntryTree.within_of_mem_forestPlaces h.2.2.1 place hmem).mono ?_ ?_
        · rw [EntryTree.size]
          omega
        · rw [EntryTree.nodes]
          exact (List.suffix_cons _ _).isInfix

theorem EntryTree.within_of_mem_forestPlaces {entry : Nat → Entry α} {parent : Option Nat}
    {off : Nat} : {ts : List (EntryTree α)} → EntryTree.LaidOuts entry off ts →
      ∀ place ∈ EntryTree.forestPlaces parent off ts,
      place.Within entry (off + EntryTree.sizes ts) (EntryTree.forest parent off ts)
  | [], _, _, hmem => nomatch hmem
  | t :: ts, h, place, hmem => by
      rw [EntryTree.forestPlaces, List.mem_append] at hmem
      rw [EntryTree.forest, EntryTree.sizes]
      rcases hmem with hmem | hmem
      · exact (EntryTree.within_of_mem_places h.1 place hmem).mono (by omega)
          (List.prefix_append _ _).isInfix
      · exact (EntryTree.within_of_mem_forestPlaces h.2 place hmem).mono (by omega)
          (List.suffix_append _ _).isInfix

end

/-- One level below the parent of a tree, the tree has its root only. -/
theorem childrenOf_nodes_of_lt {entry : Nat → Entry α} {off p : Nat} {t : EntryTree α}
    (h : t.LaidOut entry off) (hp : p < off) :
    childrenOf p (t.nodes (some p) off) = [⟨off, t.value, some p⟩] := by
  cases t with
  | leaf a n =>
      rw [EntryTree.nodes, childrenOf, List.filter_cons_of_pos (by simp), List.filter_nil]
      rfl
  | branch a n ts k =>
      have hne : (some off : Option Nat) ≠ some p := by
        intro heq
        cases heq
        omega
      have hrest := childrenOf_forest_eq_nil h.2.2.1 hne (.inl (Nat.lt_add_right n hp))
      rw [childrenOf] at hrest
      rw [EntryTree.nodes, childrenOf, List.filter_cons_of_pos (by simp), hrest]
      rfl

theorem childrenOf_forest_of_lt {entry : Nat → Entry α} {off p : Nat} {ts : List (EntryTree α)}
    (h : EntryTree.LaidOuts entry off ts) (hp : p < off) :
    childrenOf p (EntryTree.forest (some p) off ts) = EntryTree.roots (some p) off ts := by
  induction ts generalizing off with
  | nil => rfl
  | cons t ts induction =>
      rw [EntryTree.forest, EntryTree.roots, childrenOf_append, childrenOf_nodes_of_lt h.1 hp,
        induction h.2 (Nat.lt_add_right _ hp)]
      rfl

/-- The nodes whose parent the root is are its immediate children, in order. -/
theorem childrenOf_root_eq_children {entry : Nat → Entry α} {off : Nat} {t : EntryTree α}
    (h : t.LaidOut entry off) : childrenOf off (t.nodes none off) = t.children off := by
  cases t with
  | leaf a n => rfl
  | branch a n ts k =>
      have hpos := (entry off).size_pos
      rw [h.1] at hpos
      rw [EntryTree.nodes, childrenOf_cons_of_ne _ (Option.some_ne_none _).symm,
        childrenOf_forest_of_lt h.2.2.1 (by omega), EntryTree.children]

/-! ## The order of the nodes -/

/-- The entry of a node ends in front of the entry of another. -/
def EntryBefore (entry : Nat → Entry α) (m n : Node α) : Prop :=
  m.pos + (entry m.pos).size ≤ n.pos

mutual

/-- The entries of the nodes follow each other. -/
theorem EntryTree.pairwise_nodes {entry : Nat → Entry α} (parent : Option Nat) {off : Nat} :
    {t : EntryTree α} → t.LaidOut entry off → (t.nodes parent off).Pairwise (EntryBefore entry) ∧
      ∀ n ∈ t.nodes parent off, n.pos + (entry n.pos).size ≤ off + t.size
  | .leaf a n, h => by
      rw [EntryTree.nodes, EntryTree.size, ← h.1]
      refine ⟨List.pairwise_singleton _ _, fun m hm => ?_⟩
      rw [List.mem_singleton] at hm
      subst hm
      exact Nat.le_refl _
  | .branch a n ts k, h => by
      obtain ⟨hpair, hstop⟩ := EntryTree.pairwise_forest (some off) h.2.2.1
      rw [EntryTree.nodes, EntryTree.size, List.pairwise_cons, List.forall_mem_cons]
      refine ⟨⟨fun m hm => ?_, hpair⟩, ?_, fun m hm => ?_⟩
      · obtain ⟨⟨hle, _⟩, _⟩ := EntryTree.forest_range h.2.2.1 m hm
        show off + (entry off).size ≤ m.pos
        rw [h.1]
        exact hle
      · show off + (entry off).size ≤ _
        rw [h.1]
        omega
      · have hle := hstop m hm
        omega

theorem EntryTree.pairwise_forest {entry : Nat → Entry α} (parent : Option Nat) {off : Nat} :
    {ts : List (EntryTree α)} → EntryTree.LaidOuts entry off ts →
      (EntryTree.forest parent off ts).Pairwise (EntryBefore entry) ∧
      ∀ n ∈ EntryTree.forest parent off ts,
        n.pos + (entry n.pos).size ≤ off + EntryTree.sizes ts
  | [], _ => ⟨.nil, fun _ hn => nomatch hn⟩
  | t :: ts, h => by
      obtain ⟨hpair, hstop⟩ := EntryTree.pairwise_nodes parent h.1
      obtain ⟨hpairs, hstops⟩ := EntryTree.pairwise_forest parent h.2
      rw [EntryTree.forest, EntryTree.sizes, List.pairwise_append]
      refine ⟨⟨hpair, hpairs, fun m hm n hn => ?_⟩, fun n hn => ?_⟩
      · obtain ⟨⟨hle, _⟩, _⟩ := EntryTree.forest_range h.2 n hn
        exact Nat.le_trans (hstop m hm) hle
      · rcases List.mem_append.mp hn with hn | hn
        · have hle := hstop n hn
          omega
        · have hle := hstops n hn
          omega

end

/-! ## The nodes around a node -/

/-- A node with the offsets of the nodes it is nested in, from the outermost on. -/
structure Spot (α : Type) where
  pos : Nat
  value : α
  above : List Nat

/-- The node with its parent. -/
def Spot.node (spot : Spot α) : Node α := ⟨spot.pos, spot.value, spot.above.getLast?⟩

mutual

/-- The nodes of a tree in preorder, with the nodes around them. -/
def EntryTree.spots (above : List Nat) (off : Nat) : EntryTree α → List (Spot α)
  | .leaf a _ => [⟨off, a, above⟩]
  | .branch a n ts _ => ⟨off, a, above⟩ :: EntryTree.forestSpots (above ++ [off]) (off + n) ts

/-- The nodes of a list of trees in preorder, with the nodes around them. -/
def EntryTree.forestSpots (above : List Nat) (off : Nat) : List (EntryTree α) → List (Spot α)
  | [] => []
  | t :: ts => t.spots above off ++ EntryTree.forestSpots above (off + t.size) ts

end

mutual

theorem EntryTree.map_node_spots {above : List Nat} {off : Nat} :
    (t : EntryTree α) → (t.spots above off).map Spot.node = t.nodes above.getLast? off
  | .leaf a n => rfl
  | .branch a n ts k => by
      have hlast : (above ++ [off]).getLast? = some off := List.getLast?_concat
      rw [EntryTree.spots, EntryTree.nodes, List.map_cons, EntryTree.map_node_forestSpots ts, hlast]
      rfl

theorem EntryTree.map_node_forestSpots {above : List Nat} {off : Nat} :
    (ts : List (EntryTree α)) →
      (EntryTree.forestSpots above off ts).map Spot.node =
        EntryTree.forest above.getLast? off ts
  | [] => rfl
  | t :: ts => by
      rw [EntryTree.forestSpots, EntryTree.forest, List.map_append, EntryTree.map_node_spots t,
        EntryTree.map_node_forestSpots ts]

end

/-- What is around a node is around the node in front of it, or is that node. -/
def Spot.Follows (a b : Spot α) : Prop := b.above <+: a.above ++ [a.pos]

theorem EntryTree.head?_spots (above : List Nat) (off : Nat) (t : EntryTree α) :
    (t.spots above off).head? = some ⟨off, t.value, above⟩ := by
  cases t <;> rfl

theorem EntryTree.above_of_mem_head?_forestSpots {above : List Nat} {off : Nat}
    {ts : List (EntryTree α)} {spot : Spot α}
    (h : spot ∈ (EntryTree.forestSpots above off ts).head?) : spot.above = above := by
  cases ts with
  | nil => cases h
  | cons t ts =>
      rw [EntryTree.forestSpots, List.head?_append, EntryTree.head?_spots] at h
      cases h
      rfl

mutual

/-- In preorder every node follows the one in front of it. -/
theorem EntryTree.spots_follow {above : List Nat} {off : Nat} :
    (t : EntryTree α) → (t.spots above off).IsChain Spot.Follows ∧
      ∀ spot ∈ t.spots above off, above <+: spot.above
  | .leaf a n => by
      refine ⟨.singleton _, ?_⟩
      intro spot hspot
      obtain rfl := List.mem_singleton.mp hspot
      exact List.prefix_rfl
  | .branch a n ts k => by
      obtain ⟨hchain, habove⟩ := EntryTree.forestSpots_follow ts
      rw [EntryTree.spots, List.isChain_cons, List.forall_mem_cons]
      refine ⟨⟨?_, hchain⟩, List.prefix_rfl, ?_⟩
      · intro spot hspot
        have hspot' := EntryTree.above_of_mem_head?_forestSpots hspot
        exact ⟨[], by rw [hspot', List.append_nil]⟩
      · intro spot hspot
        exact (List.prefix_append _ _).trans (habove spot hspot)

theorem EntryTree.forestSpots_follow {above : List Nat} {off : Nat} :
    (ts : List (EntryTree α)) → (EntryTree.forestSpots above off ts).IsChain Spot.Follows ∧
      ∀ spot ∈ EntryTree.forestSpots above off ts, above <+: spot.above
  | [] => ⟨.nil, fun _ hspot => nomatch hspot⟩
  | t :: ts => by
      obtain ⟨hchain, habove⟩ := EntryTree.spots_follow t
      obtain ⟨hchains, haboves⟩ := EntryTree.forestSpots_follow ts
      rw [EntryTree.forestSpots, List.isChain_append, List.forall_mem_append]
      refine ⟨⟨hchain, hchains, ?_⟩, habove, haboves⟩
      intro a ha b hb
      rw [Spot.Follows, EntryTree.above_of_mem_head?_forestSpots hb]
      exact (habove a (List.mem_of_getLast? ha)).trans (List.prefix_append _ _)

end

/-! ## The way to a node -/

/-- A node with the values on the way to it, its own in front and that of the root
at the end. -/
structure Way (α : Type) where
  node : Node α
  values : List α

mutual

/-- The ways to the nodes of a tree in preorder, behind those to its parent. -/
def EntryTree.ways (parent : Option Nat) (above : List α) (off : Nat) :
    EntryTree α → List (Way α)
  | .leaf a _ => [⟨⟨off, a, parent⟩, a :: above⟩]
  | .branch a n ts _ =>
      ⟨⟨off, a, parent⟩, a :: above⟩ :: EntryTree.forestWays (some off) (a :: above) (off + n) ts

/-- The ways to the nodes of a list of trees in preorder. -/
def EntryTree.forestWays (parent : Option Nat) (above : List α) (off : Nat) :
    List (EntryTree α) → List (Way α)
  | [] => []
  | t :: ts => t.ways parent above off ++ EntryTree.forestWays parent above (off + t.size) ts

end

mutual

theorem EntryTree.map_node_ways {parent : Option Nat} {above : List α} {off : Nat} :
    (t : EntryTree α) → (t.ways parent above off).map Way.node = t.nodes parent off
  | .leaf a n => rfl
  | .branch a n ts k => by
      rw [EntryTree.ways, EntryTree.nodes, List.map_cons, EntryTree.map_node_forestWays ts]

theorem EntryTree.map_node_forestWays {parent : Option Nat} {above : List α} {off : Nat} :
    (ts : List (EntryTree α)) →
      (EntryTree.forestWays parent above off ts).map Way.node = EntryTree.forest parent off ts
  | [] => rfl
  | t :: ts => by
      rw [EntryTree.forestWays, EntryTree.forest, List.map_append, EntryTree.map_node_ways t,
        EntryTree.map_node_forestWays ts]

end

/-- One way leads on from another: its node is a child, at a later offset. -/
def Way.From (way prior : Way α) : Prop :=
  way.node.parent = some prior.node.pos ∧ prior.node.pos < way.node.pos ∧
    way.values = way.node.value :: prior.values

mutual

/-- The way to a node is that to the root, or leads on from the way to its
parent. -/
theorem EntryTree.way_from {entry : Nat → Entry α} {parent : Option Nat} {above : List α}
    {off : Nat} : {t : EntryTree α} → t.LaidOut entry off → ∀ way ∈ t.ways parent above off,
      (way.node.parent = parent ∧ way.node.pos = off ∧ way.values = way.node.value :: above) ∨
        ∃ prior ∈ t.ways parent above off, way.From prior
  | .leaf a n, _, way, hway => by
      rw [EntryTree.ways, List.mem_singleton] at hway
      subst hway
      exact .inl ⟨rfl, rfl, rfl⟩
  | .branch a n ts k, h, way, hway => by
      have hpos := (entry off).size_pos
      rw [h.1] at hpos
      rw [EntryTree.ways, List.mem_cons] at hway
      rcases hway with rfl | hway
      · exact .inl ⟨rfl, rfl, rfl⟩
      · refine .inr ?_
        rcases EntryTree.forestWay_from h.2.2.1 way hway with ⟨hparent, hle, hvalues⟩ | hprior
        · have hlt : off < way.node.pos := by omega
          exact ⟨_, List.mem_cons_self, hparent, hlt, hvalues⟩
        · obtain ⟨prior, hmem, hfrom⟩ := hprior
          exact ⟨prior, List.mem_cons_of_mem _ hmem, hfrom⟩

theorem EntryTree.forestWay_from {entry : Nat → Entry α} {parent : Option Nat} {above : List α}
    {off : Nat} : {ts : List (EntryTree α)} → EntryTree.LaidOuts entry off ts →
      ∀ way ∈ EntryTree.forestWays parent above off ts,
      (way.node.parent = parent ∧ off ≤ way.node.pos ∧ way.values = way.node.value :: above) ∨
        ∃ prior ∈ EntryTree.forestWays parent above off ts, way.From prior
  | [], _, _, hway => nomatch hway
  | t :: ts, h, way, hway => by
      rw [EntryTree.forestWays, List.mem_append] at hway
      rcases hway with hway | hway
      · rcases EntryTree.way_from h.1 way hway with ⟨hparent, hpos, hvalues⟩ | ⟨prior, hmem, hfrom⟩
        · exact .inl ⟨hparent, Nat.le_of_eq hpos.symm, hvalues⟩
        · exact .inr ⟨prior, List.mem_append_left _ hmem, hfrom⟩
      · rcases EntryTree.forestWay_from h.2 way hway with
          ⟨hparent, hle, hvalues⟩ | ⟨prior, hmem, hfrom⟩
        · exact .inl ⟨hparent, Nat.le_trans (Nat.le_add_right _ _) hle, hvalues⟩
        · exact .inr ⟨prior, List.mem_append_right _ hmem, hfrom⟩

end

end Preorder
