import Nsb.Lib.Groups
import Nsb.Generator.SymbolOrigins

/-!
# Reading a patch loses no symbol

The parents of the symbols that `read_patch` of `patch_symbol.py` returns, and
the whole of what it returns.

The stack of the walk holds the last DIE and the DIEs around it, also from one
compile unit to the next.  As every DIE has an offset of its own, the dictionary
has the symbol of a DIE on the stack and never that of another one.
-/

namespace Nsb

open Preorder (Entry EntryTree Node Spot)

/-! ## The parents -/

/-- The offset of a DIE. -/
def DieSpot.pos (d : DieSpot) : Nat := d.spot.pos

/-- The DIEs on the stack: the last one and those around it. -/
def stackOf (front : List DieSpot) : List Nat :=
  front.getLast?.elim [] fun d => d.spot.above ++ [d.spot.pos]

/-- The stack and the dictionary of the walk. -/
structure Walk.Linked (front : List DieSpot) (w : Walk) (origins : List Origin) : Prop where
  stack : w.diePosStack = none :: (stackOf front).map some
  nodup : (stackOf front).Nodup
  seen : stackOf front ⊆ front.map DieSpot.pos
  above : ∀ o ∈ origins, ∀ d ∈ o.die, d ∈ front ∧ d.spot.above ⊆ front.map DieSpot.pos
  map : ∀ pos, w.diePosMap pos = defAt origins pos
  parents : List.Forall₂ (fun o (sym : ReadSymbol) => sym.parent = o.parentIn origins)
    origins w.symbols

/-- The place of the innermost DIE in a stack. -/
theorem idxOf?_getLast? {above : List Nat} (h : above.Nodup) (more : List Nat) :
    (none :: (above ++ more).map some).idxOf? above.getLast? = some above.length := by
  rcases List.eq_nil_or_concat above with rfl | ⟨init, q, rfl⟩
  · rfl
  · rw [List.concat_eq_append] at h ⊢
    have hq : some q ∉ none :: init.map some := by
      intro hmem
      rw [List.mem_cons, List.mem_map] at hmem
      rcases hmem with hmem | ⟨r, hr, heq⟩
      · cases hmem
      · cases heq
        exact (List.nodup_append.mp h).2.2 q hr q (List.mem_singleton_self q) rfl
    have hplace := @idxOf?_append_cons _ _ _ _ (more.map some) _ hq
    rw [List.getLast?_concat, List.append_assoc, List.singleton_append, List.map_append,
      List.map_cons, ← List.cons_append, hplace, List.length_cons, List.length_map,
      List.length_append, List.length_singleton]

/-- A DIE that follows the last one is put behind those around it. -/
theorem Walk.enter_eq {w : Walk} {d : DieSpot} {last : List Nat}
    (hstack : w.diePosStack = none :: last.map some) (hnodup : last.Nodup)
    (hfollows : d.spot.above <+: last) :
    w.enter d.dio = .ok { w with
      diePosStack := none :: (d.spot.above ++ [d.spot.pos]).map some } := by
  obtain ⟨more, rfl⟩ := hfollows
  have hparent : d.dio.parentDiePos = d.spot.above.getLast? := rfl
  have hpos : d.dio.diePos = d.spot.pos := rfl
  have hplace := idxOf?_getLast? (List.nodup_append.mp hnodup).1 more
  have htake : (none :: (d.spot.above ++ more).map some).take (d.spot.above.length + 1) =
      none :: d.spot.above.map some := by
    rw [List.take_succ_cons, List.map_append]
    congr 1
    exact List.take_left' (List.length_map _)
  rw [Walk.enter, hstack, hparent, hplace]
  dsimp only
  rw [htake, hpos, List.map_append]
  rfl

theorem Origin.exists_die_of_defines {o : Origin} {pos : Nat} (h : o.defines pos = true) :
    ∃ d, o.die = some d ∧ d.pos = pos := by
  cases o with
  | definition die entry => exact ⟨die, rfl, of_decide_eq_true h⟩
  | declaration die name => cases h
  | undeclared name => cases h

/-- No symbol is defined at a DIE that has not been seen. -/
theorem defAt_eq_none {origins : List Origin} {front : List DieSpot} {pos : Nat}
    (h : ∀ o ∈ origins, ∀ d ∈ o.die, d ∈ front) (hpos : pos ∉ front.map DieSpot.pos) :
    defAt origins pos = none := by
  rw [defAt, List.findIdx?_eq_none_iff]
  intro o ho
  rw [Bool.eq_false_iff]
  intro hdef
  obtain ⟨d, hd, rfl⟩ := Origin.exists_die_of_defines hdef
  exact hpos (List.mem_map_of_mem (h o ho d hd))

theorem defAt_concat (origins : List Origin) (o : Origin) (pos : Nat) :
    defAt (origins ++ [o]) pos =
      (defAt origins pos).or (if o.defines pos then some origins.length else none) := by
  rw [defAt, List.findIdx?_append, defAt]
  congr 1
  cases h : o.defines pos <;> simp [h]

theorem findSome?_congr {α β : Type} {f g : α → Option β} {l : List α}
    (h : ∀ a ∈ l, f a = g a) : l.findSome? f = l.findSome? g := by
  induction l with
  | nil => rfl
  | cons a l induction =>
      rw [List.forall_mem_cons] at h
      rw [List.findSome?_cons, List.findSome?_cons, h.1, induction h.2]

/-- A symbol at another DIE does not change a parent. -/
theorem Origin.parentIn_concat {origins : List Origin} {o o' : Origin} {d : DieSpot}
    (ho : o.die = some d) (h : ∀ e ∈ o'.die, d.pos ∉ e.spot.above) :
    o'.parentIn (origins ++ [o]) = o'.parentIn origins := by
  rw [Origin.parentIn, Origin.parentIn]
  cases hdie : o'.die with
  | none => rfl
  | some e =>
      have hsame : ∀ pos ∈ e.spot.above.reverse,
          defAt (origins ++ [o]) pos = defAt origins pos := by
        intro pos hpos
        rw [defAt_concat, if_neg, Option.or_none]
        intro hdef
        obtain ⟨d', hd', rfl⟩ := Origin.exists_die_of_defines hdef
        rw [ho] at hd'
        cases hd'
        exact h e hdie (List.mem_reverse.mp hpos)
      exact findSome?_congr hsame

section Link

variable {front : List DieSpot} {w w₁ w' : Walk} {origins origins' : List Origin} {d : DieSpot}

theorem stackOf_concat (front : List DieSpot) (d : DieSpot) :
    stackOf (front ++ [d]) = d.spot.above ++ [d.spot.pos] := by
  rw [stackOf, List.getLast?_concat]
  rfl

/-- The DIE itself has no symbol yet, so its parent is the nearest one around it. -/
theorem Walk.Linked.parentSym (h : w.Linked front origins) (hnew : d.pos ∉ front.map DieSpot.pos)
    (hmap : w₁.diePosMap = w.diePosMap)
    (hstack : w₁.diePosStack = none :: (d.spot.above ++ [d.spot.pos]).map some) :
    w₁.parentSym = d.spot.above.reverse.findSome? (defAt origins) := by
  have hself : defAt origins d.spot.pos = none :=
    defAt_eq_none (fun o ho e he => (h.above o ho e he).1) hnew
  have hdef : (fun pos : Option Nat => pos.bind w₁.diePosMap) ∘ some = defAt origins := by
    funext pos
    rw [← h.map pos, ← hmap]
    rfl
  rw [Walk.parentSym, hstack, List.reverse_cons, ← List.map_reverse, List.reverse_append,
    List.reverse_singleton, List.findSome?_append, List.findSome?_map, hdef,
    List.singleton_append, List.findSome?_cons, hself]
  exact Option.or_none

/-- A DIE that follows the last one is put on the stack. -/
theorem Walk.Linked.enter (h : w.Linked front origins) (hfollows : d.spot.above <+: stackOf front)
    (hnew : d.pos ∉ front.map DieSpot.pos) :
    ({ w with diePosStack := none :: (d.spot.above ++ [d.spot.pos]).map some } : Walk).Linked
      (front ++ [d]) origins := by
  have habove : d.spot.above ⊆ front.map DieSpot.pos := List.Subset.trans hfollows.subset h.seen
  have hseen : front.map DieSpot.pos ⊆ (front ++ [d]).map DieSpot.pos := by
    rw [List.map_append]
    exact List.subset_append_left _ _
  have hself : d.pos ∈ (front ++ [d]).map DieSpot.pos :=
    List.mem_map_of_mem (List.mem_append_right _ (List.mem_singleton_self d))
  refine { h with stack := ?_, nodup := ?_, seen := ?_, above := ?_ }
  · rw [stackOf_concat]
  · rw [stackOf_concat, List.nodup_append]
    refine ⟨h.nodup.sublist hfollows.sublist, List.nodup_singleton _, ?_⟩
    intro a ha b hb heq
    rw [heq, List.mem_singleton.mp hb] at ha
    exact hnew (habove ha)
  · rw [stackOf_concat]
    exact List.append_subset.mpr ⟨List.Subset.trans habove hseen,
      List.cons_subset.mpr ⟨hself, List.nil_subset _⟩⟩
  · intro o ho e he
    obtain ⟨hmem, hsub⟩ := h.above o ho e he
    exact ⟨List.mem_append_left _ hmem, List.Subset.trans hsub hseen⟩

/-- The dictionary with a symbol at a DIE that has not been seen before. -/
theorem Walk.Linked.map_push (h : w.Linked front origins) (hnew : d.pos ∉ front.map DieSpot.pos)
    {o : Origin} (hdie : o.die = some d) (pos : Nat) :
    (if o.defines pos then some w.symbols.length else w.diePosMap pos) =
      defAt (origins ++ [o]) pos := by
  rw [defAt_concat, h.parents.length_eq]
  cases hdef : o.defines pos with
  | true =>
      obtain ⟨e, he, rfl⟩ := Origin.exists_die_of_defines hdef
      rw [hdie] at he
      cases he
      rw [defAt_eq_none (fun o' ho' e' he' => (h.above o' ho' e' he').1) hnew]
      rfl
  | false => exact (h.map pos).trans Option.or_none.symm

/-- The parents with a symbol at a DIE that has not been seen before. -/
theorem Walk.Linked.parents_push (h : w.Linked front origins)
    (habove : d.spot.above ⊆ front.map DieSpot.pos) (hnew : d.pos ∉ front.map DieSpot.pos)
    {o : Origin} {sym : ReadSymbol} (hdie : o.die = some d)
    (hparent : sym.parent = d.spot.above.reverse.findSome? (defAt origins)) :
    List.Forall₂ (fun o' (sym' : ReadSymbol) => sym'.parent = o'.parentIn (origins ++ [o]))
      (origins ++ [o]) (w.symbols ++ [sym]) := by
  have hothers : ∀ o' ∈ origins, ∀ e ∈ o'.die, d.pos ∉ e.spot.above :=
    fun o' ho' e he hmem => hnew ((h.above o' ho' e he).2 hmem)
  have hself : ∀ e ∈ o.die, d.pos ∉ e.spot.above := by
    intro e he hmem
    rw [hdie] at he
    cases he
    exact hnew (habove hmem)
  refine List.rel_append ?_ (.cons ?_ .nil)
  · refine ((List.forall₂_and_left _ _).mpr ⟨hothers, h.parents⟩).imp ?_
    rintro o' sym' ⟨hother, hpar⟩
    rw [hpar, Origin.parentIn_concat hdie hother]
  · rw [hparent, Origin.parentIn_concat hdie hself, Origin.parentIn, hdie]
    rfl

/-- The body of the walk keeps the stack and the dictionary. -/
theorem Walk.Linked.step (h : w.Linked front origins) (hfollows : d.spot.above <+: stackOf front)
    (hnew : d.pos ∉ front.map DieSpot.pos) (henter : w.enter d.dio = .ok w₁)
    (hpush : w₁.Pushes origins d w' origins') : w'.Linked (front ++ [d]) origins' := by
  have habove : d.spot.above ⊆ front.map DieSpot.pos := List.Subset.trans hfollows.subset h.seen
  have h₁ := h.enter hfollows hnew
  rw [Walk.enter_eq h.stack h.nodup hfollows] at henter
  have hw₁ := Except.ok.inj henter
  rw [hw₁] at h₁
  have hmap₁ : w₁.diePosMap = w.diePosMap := by rw [← hw₁]
  have hsyms₁ : w₁.symbols = w.symbols := by rw [← hw₁]
  cases hpush with
  | keep hstack hsyms hmap =>
      exact ⟨by rw [hstack]; exact h₁.stack, h₁.nodup, h₁.seen, h₁.above,
        by rw [hmap]; exact h₁.map, by rw [hsyms]; exact h₁.parents⟩
  | @push o sym hstack hdie hsyms hparent hmap =>
      have hparent' : sym.parent = d.spot.above.reverse.findSome? (defAt origins) := by
        rw [hparent]
        exact h.parentSym hnew hmap₁ (by rw [h₁.stack, stackOf_concat])
      have hself : ∀ e ∈ o.die, e ∈ front ++ [d] ∧
          e.spot.above ⊆ (front ++ [d]).map DieSpot.pos := by
        intro e he
        rw [hdie] at he
        cases he
        rw [List.map_append]
        exact ⟨List.mem_append_right _ (List.mem_singleton_self d),
          List.subset_append_of_subset_left _ habove⟩
      refine ⟨by rw [hstack]; exact h₁.stack, h₁.nodup, h₁.seen, ?_, ?_, ?_⟩
      · rw [List.forall_mem_append, List.forall_mem_singleton]
        exact ⟨h₁.above, hself⟩
      · intro pos
        rw [hmap, hsyms₁, hmap₁]
        exact h.map_push hnew hdie pos
      · rw [hsyms, hsyms₁]
        exact h.parents_push habove hnew hdie hparent'

end Link

/-- Every symbol names a parent in front of it. -/
def ParentsInFront (syms : List ReadSymbol) : Prop :=
  ∀ i (sym : ReadSymbol), syms[i]? = some sym → ∀ j ∈ sym.parent, j < i

/-- The dictionary and the parents have indices of symbols. -/
structure Walk.Indexed (w : Walk) : Prop where
  map : ∀ pos i, w.diePosMap pos = some i → i < w.symbols.length
  parents : ParentsInFront w.symbols

theorem Walk.Indexed.parentSym_lt {w : Walk} (h : w.Indexed) {i : Nat}
    (hparent : w.parentSym = some i) : i < w.symbols.length := by
  obtain ⟨pos, _, hpos⟩ := List.exists_of_findSome?_eq_some hparent
  obtain ⟨p, _, hmap⟩ := Option.bind_eq_some_iff.mp hpos
  exact h.map p i hmap

theorem Walk.Indexed.pushes {w w' : Walk} {origins origins' : List Origin} {d : DieSpot}
    (h : w.Indexed) (hpush : w.Pushes origins d w' origins') : w'.Indexed := by
  cases hpush with
  | keep hstack hsyms hmap =>
      exact ⟨by rw [hmap, hsyms]; exact h.map, by rw [hsyms]; exact h.parents⟩
  | push hstack hdie hsyms hparent hmap =>
      refine ⟨?_, ?_⟩
      · intro pos i hi
        rw [hmap] at hi
        rw [hsyms, List.length_append, List.length_singleton]
        split at hi
        · cases hi
          exact Nat.lt_succ_self _
        · exact Nat.lt_succ_of_lt (h.map pos i hi)
      · intro i sym hsym j hj
        rw [hsyms, List.getElem?_append] at hsym
        split at hsym
        · exact h.parents i sym hsym j hj
        · next hge =>
            rw [List.getElem?_singleton] at hsym
            split at hsym
            · cases hsym
              have hlt := h.parentSym_lt (hparent.symm.trans hj)
              omega
            · cases hsym

/-! ## The whole walk -/

/-- What holds between two iterations of the walk. -/
structure Walk.Inv (env : ReadEnv) (read : SymtabRead) (front : List DieSpot) (w : Walk)
    (objs : List (DieSpot × SymtabEntry × Nat)) (origins : List Origin) : Prop where
  accounts : w.Accounts env read front objs origins
  settled : w.Settled
  indexed : w.Indexed
  linked : (front.map DieSpot.pos).Nodup → w.Linked front origins

theorem Walk.enter_eq_ok {w w' : Walk} {dio : Dio} (h : w.enter dio = .ok w') :
    ∃ stack, w' = { w with diePosStack := stack } := by
  rw [Walk.enter] at h
  split at h
  · cases h
  · cases h
    exact ⟨_, rfl⟩

theorem Walk.Inv.step {env : ReadEnv} {read : SymtabRead} {front : List DieSpot} {w w' : Walk}
    {objs : List (DieSpot × SymtabEntry × Nat)} {origins : List Origin} {d : DieSpot}
    (h : w.Inv env read front objs origins) (hfollows : d.spot.above <+: stackOf front)
    (hread : w.readDio env d.dio = .ok w') :
    ∃ objs' origins', w'.Inv env read (front ++ [d]) objs' origins' := by
  obtain ⟨w₁, henter, heff⟩ := Walk.readDio_effect hread
  obtain ⟨stack, rfl⟩ := Walk.enter_eq_ok henter
  have hd : d ∈ front ++ [d] := List.mem_append_right _ (List.mem_singleton_self d)
  obtain ⟨objs', origins', haccounts, hpush⟩ := (h.accounts.see stack).effect hd heff
  have hsettled : ({ w with diePosStack := stack } : Walk).Settled := h.settled
  have hindexed : ({ w with diePosStack := stack } : Walk).Indexed :=
    ⟨h.indexed.map, h.indexed.parents⟩
  refine ⟨objs', origins', haccounts, hsettled.effect h.accounts.nodup heff,
    hindexed.pushes hpush, ?_⟩
  intro hnodup
  rw [List.map_append, List.nodup_append] at hnodup
  refine (h.linked hnodup.1).step hfollows ?_ henter hpush
  intro hmem
  exact hnodup.2.2 _ hmem _ (List.mem_singleton_self _) rfl

/-- The DIE after some others in preorder follows the stack. -/
theorem above_prefix_stackOf {front back : List DieSpot} {d : DieSpot}
    (hchain : (front ++ d :: back).IsChain DieSpot.Follows)
    (hhead : ∀ e ∈ (front ++ d :: back).head?, e.spot.above = []) :
    d.spot.above <+: stackOf front := by
  rcases List.eq_nil_or_concat front with rfl | ⟨init, last, rfl⟩
  · rw [hhead d rfl]
    exact List.nil_prefix
  · rw [List.concat_eq_append, stackOf_concat]
    rw [List.concat_eq_append] at hchain
    exact (List.isChain_append.mp hchain).2.2 last List.getLast?_concat d rfl

/-- The walk keeps what holds between two iterations. -/
theorem Walk.readDios_inv {env : ReadEnv} {read : SymtabRead} {back front : List DieSpot}
    {w w' : Walk} {objs : List (DieSpot × SymtabEntry × Nat)} {origins : List Origin}
    (h : w.Inv env read front objs origins) (hchain : (front ++ back).IsChain DieSpot.Follows)
    (hhead : ∀ e ∈ (front ++ back).head?, e.spot.above = [])
    (hread : Walk.readDios env (back.map DieSpot.dio) w = .ok w') :
    ∃ objs' origins', w'.Inv env read (front ++ back) objs' origins' := by
  induction back generalizing front w objs origins with
  | nil =>
      cases hread
      rw [List.append_nil]
      exact ⟨objs, origins, h⟩
  | cons d back induction =>
      rw [List.map_cons, Walk.readDios] at hread
      obtain ⟨w₁, hdio, hread⟩ := bind_eq_ok_iff.mp hread
      obtain ⟨objs₁, origins₁, h₁⟩ := h.step (above_prefix_stackOf hchain hhead) hdio
      have happend : front ++ d :: back = front ++ [d] ++ back := by
        rw [List.append_assoc, List.singleton_append]
      rw [happend] at hchain hhead ⊢
      exact induction h₁ hchain hhead hread

/-- Before the walk. -/
theorem Walk.Inv.start (env : ReadEnv) {read : SymtabRead} (hnodup : read.undefSymNames.Nodup) :
    (⟨[none], fun _ => none, read.undefSymNames, read.defSyms, [], [], []⟩ : Walk).Inv env read
      [] [] [] where
  accounts :=
    { defs := by simp, objects := by simp, values := rfl, entries := by simp, names := by simp
      nodup := hnodup, noted := by simp, gives := .nil, dies := by simp }
  settled := by simp [Walk.Settled]
  indexed := ⟨by simp, by simp [ParentsInFront]⟩
  linked := fun _ =>
    { stack := rfl, nodup := .nil, seen := by simp [stackOf], above := by simp
      map := fun _ => rfl, parents := .nil }

/-! ## Offsets -/

/-- `iter_dios` goes over the units it was given. -/
theorem DebugInfo.cus_perm {cus : List CU} {di : DebugInfo}
    (h : DebugInfo.init (some cus) = .ok di) : di.cus.Perm cus := by
  obtain ⟨hperm, hsorted⟩ := DebugInfo.cuPos_of_init h
  have hmem : ((1, none) : Int × Option CU) ∈ di.cuPos := (DebugInfo.mem_cuPos h).mpr (.inr rfl)
  obtain ⟨init, last, hlast⟩ : ∃ init last, di.cuPos = init ++ [last] := by
    rcases List.eq_nil_or_concat di.cuPos with hnil | ⟨init, last, hlast⟩
    · rw [hnil] at hmem
      cases hmem
    · exact ⟨init, last, by rw [hlast, List.concat_eq_append]⟩
  -- the sentinel has the greatest key
  have hsentinel : last = (1, none) := by
    have hge : (1 : Int) ≤ last.1 := by
      rw [hlast] at hmem hsorted
      rcases List.mem_append.mp hmem with hinit | heq
      · exact (List.pairwise_append.mp hsorted).2.2 _ hinit last (List.mem_singleton_self _)
      · rw [← List.mem_singleton.mp heq]
    have hin : last ∈ di.cuPos := by
      rw [hlast]
      exact List.mem_append_right _ (List.mem_singleton_self _)
    rcases (DebugInfo.mem_cuPos h).mp hin with ⟨cu, _, rfl⟩ | heq
    · dsimp only at hge
      omega
    · exact heq
  rw [hlast, hsentinel, List.perm_append_right_iff] at hperm
  have hunits : (cus.map fun cu => (-(cu.cuOffset : Int), some cu)).filterMap Prod.snd = cus := by
    rw [List.filterMap_map]
    exact List.filterMap_some
  have hfilter := hperm.filterMap (Prod.snd : Int × Option CU → Option CU)
  rw [hunits] at hfilter
  rw [DebugInfo.cus, hlast, List.reverse_append, List.reverse_singleton, List.singleton_append,
    List.drop_one, List.tail_cons]
  exact ((List.reverse_perm init).filterMap _).trans hfilter

theorem CU.map_pos_dieSpots (cu : CU) :
    cu.dieSpots.map DieSpot.pos = cu.nodes.map Node.pos := by
  have hnodes : (cu.tree.spots [] cu.cuDieOffset).map Spot.node = cu.nodes :=
    EntryTree.map_node_spots cu.tree
  rw [CU.dieSpots, List.map_map, ← hnodes, List.map_map]
  rfl

/-- The DIEs of units that are apart have offsets of their own. -/
theorem UnitsApart.nodup_pos {cus : List CU} (h : UnitsApart cus) :
    ((cus.flatMap CU.dieSpots).map DieSpot.pos).Nodup := by
  rw [List.map_flatMap, List.nodup_flatMap]
  refine ⟨?_, ?_⟩
  · intro cu _
    rw [CU.map_pos_dieSpots, List.Nodup, List.pairwise_map]
    exact cu.pairwise_nodes.imp fun hbefore => (CU.pos_lt_of_before hbefore).ne
  · refine h.apart.imp_of_mem ?_
    intro c d hc hd hapart
    have hheader := h.header d hd
    show List.Disjoint (c.dieSpots.map DieSpot.pos) (d.dieSpots.map DieSpot.pos)
    rw [CU.map_pos_dieSpots, CU.map_pos_dieSpots, List.disjoint_left]
    intro pos hpos hpos'
    obtain ⟨m, hm, rfl⟩ := List.mem_map.mp hpos
    obtain ⟨n, hn, heq⟩ := List.mem_map.mp hpos'
    have hm' := CU.range_of_mem_nodes hm
    have hn' := CU.range_of_mem_nodes hn
    have hsize := (c.dieAt m.pos).size_pos
    omega

/-! ## Linking -/

/-- The parent of a symbol. -/
def Symbol.parent : Symbol → Option Symbol
  | .top _ => none
  | .nested _ parent => some parent

/-- `process_meta` changes target names and target files only. -/
theorem resolveFileScopes_keeps {mds : List Metadata} {syms syms' : List ReadSymbol}
    {aliases : List Alias} {defined : List (Option String × String)}
    (h : resolveFileScopes mds syms aliases defined = .ok syms') :
    List.Forall₂ (fun a b : ReadSymbol => b.facts = a.facts ∧ b.parent = a.parent) syms syms' := by
  induction syms generalizing aliases defined syms' with
  | nil =>
      cases aliases with
      | nil =>
          cases h
          exact .nil
      | cons md aliases => cases h
  | cons sym syms induction =>
      rw [resolveFileScopes] at h
      split at h
      · obtain ⟨rest, hrest, h⟩ := bind_eq_ok_iff.mp h
        cases h
        exact .cons ⟨rfl, rfl⟩ (induction hrest)
      · dsimp only at h
        split at h
        · cases h
        · obtain ⟨file, _, h⟩ := bind_eq_ok_iff.mp h
          split at h
          · obtain ⟨rest, hrest, h⟩ := bind_eq_ok_iff.mp h
            cases h
            exact .cons ⟨rfl, rfl⟩ (induction hrest)
          · split at h
            · cases h
            · obtain ⟨rest, hrest, h⟩ := bind_eq_ok_iff.mp h
              cases h
              exact .cons ⟨rfl, rfl⟩ (induction hrest)

theorem processMeta_keeps {mds : List Metadata} {syms syms' : List ReadSymbol}
    (h : processMeta mds syms = .ok syms') :
    List.Forall₂ (fun a b : ReadSymbol => b.facts = a.facts ∧ b.parent = a.parent) syms syms' := by
  obtain ⟨_, _, h⟩ := bind_eq_ok_iff.mp h
  obtain ⟨aliases, _, h⟩ := bind_eq_ok_iff.mp h
  exact resolveFileScopes_keeps h

theorem ParentsInFront.of_keeps {syms syms' : List ReadSymbol} (h : ParentsInFront syms)
    (hkeeps : List.Forall₂ (fun a b : ReadSymbol => b.facts = a.facts ∧ b.parent = a.parent)
      syms syms') : ParentsInFront syms' := by
  have hmap : syms.map ReadSymbol.parent = syms'.map ReadSymbol.parent :=
    Groups.map_eq_of_forall₂ hkeeps fun _ _ hab => hab.2.symm
  intro i sym hsym j hj
  have hparent : (syms.map ReadSymbol.parent)[i]? = some sym.parent := by
    rw [hmap, List.getElem?_map, hsym]
    rfl
  rw [List.getElem?_map] at hparent
  obtain ⟨old, hold, hsame⟩ := Option.map_eq_some_iff.mp hparent
  exact h i old hold j (by rw [hsame]; exact hj)

theorem ParentsInFront.append {syms refs : List ReadSymbol} (h : ParentsInFront syms)
    (hrefs : ∀ sym ∈ refs, sym.parent = none) : ParentsInFront (syms ++ refs) := by
  intro i sym hsym j hj
  rw [List.getElem?_append] at hsym
  split at hsym
  · exact h i sym hsym j hj
  · rw [hrefs sym (List.mem_of_getElem? hsym)] at hj
    cases hj

theorem linkSymbols_concat (group : List String) (syms : List ReadSymbol) (sym : ReadSymbol)
    (front : List PatchSym) :
    linkSymbols group (syms ++ [sym]) front = linkSymbols group syms front ++
      [⟨sym.link group (linkSymbols group syms front), sym.stValue, sym.idx⟩] := by
  induction syms generalizing front with
  | nil => rfl
  | cons first syms induction =>
      rw [List.cons_append, linkSymbols, induction]
      rfl

theorem length_linkSymbols (group : List String) (syms : List ReadSymbol) (front : List PatchSym) :
    (linkSymbols group syms front).length = front.length + syms.length := by
  have hinfo := congrArg List.length (linkSymbols_info group syms front)
  rw [List.length_map, List.length_append, List.length_map, List.length_map] at hinfo
  exact hinfo

theorem ReadSymbol.link_parent (group : List String) (front : List PatchSym) (sym : ReadSymbol) :
    (sym.link group front).info = sym.info group ∧
      (sym.link group front).parent =
        (sym.parent.bind fun i => front[i]?).map PatchSym.symbol := by
  rw [ReadSymbol.link]
  cases sym.parent.bind fun i => front[i]? with
  | none => exact ⟨rfl, rfl⟩
  | some parent => exact ⟨rfl, rfl⟩

/-- The symbols are linked to the parents they name. -/
theorem linkSymbols_parents (group : List String) {syms : List ReadSymbol}
    (h : ParentsInFront syms) :
    List.Forall₂ (fun (sym : ReadSymbol) (s : PatchSym) => s.facts = sym.facts ∧
        s.symbol.parent =
          (sym.parent.bind fun i => (linkSymbols group syms [])[i]?).map PatchSym.symbol)
      syms (linkSymbols group syms []) := by
  induction syms using List.reverseRecOn with
  | nil => exact .nil
  | append_singleton syms sym induction =>
      have hold : ParentsInFront syms := by
        intro i old hi
        refine h i old ?_
        rw [List.getElem?_append_left (List.getElem?_eq_some_iff.mp hi).1]
        exact hi
      have hlength : (linkSymbols group syms []).length = syms.length := by
        rw [length_linkSymbols, List.length_nil, Nat.zero_add]
      -- what is linked stays at its place
      have hfront (old : ReadSymbol) (hlt : ∀ j ∈ old.parent, j < syms.length)
          (more : List PatchSym) :
          (old.parent.bind fun i => (linkSymbols group syms [] ++ more)[i]?) =
            old.parent.bind fun i => (linkSymbols group syms [])[i]? := by
        cases hparent : old.parent with
        | none => rfl
        | some i => exact List.getElem?_append_left (by rw [hlength]; exact hlt i hparent)
      rw [linkSymbols_concat]
      refine List.rel_append ?_ (.cons ?_ .nil)
      · have hlt : ∀ old ∈ syms, ∀ j ∈ old.parent, j < syms.length := by
          intro old hmem j hj
          obtain ⟨i, hi⟩ := List.mem_iff_getElem?.mp hmem
          exact Nat.lt_trans (hold i old hi j hj) (List.getElem?_eq_some_iff.mp hi).1
        refine ((List.forall₂_and_left _ _).mpr ⟨hlt, induction hold⟩).imp ?_
        rintro old s ⟨hlt, hfacts, hparent⟩
        exact ⟨hfacts, by rw [hparent, hfront old hlt]⟩
      · have hlt := h syms.length sym (by rw [List.getElem?_append_right (Nat.le_refl _)]; simp)
        obtain ⟨hinfo, hparent⟩ := sym.link_parent group (linkSymbols group syms [])
        refine ⟨?_, ?_⟩
        · rw [PatchSym.facts, hinfo]
          rfl
        · rw [hfront sym hlt]
          exact hparent

/-! ## The patch -/

/-- What `read_patch` has read of a patch: the metadata with the objects they
were read from, and the origins of the symbols. -/
structure PatchRead where
  cus : List CU
  symtab : List SymtabEntry
  name2idx : List (String × Nat)
  mds : List Metadata
  objs : List (DieSpot × SymtabEntry × Nat)
  origins : List Origin

/-- The entries and the names are read exactly: an entry outside of the metadata
is the origin of one symbol, an entry of the metadata is that of one metadata
object, and an undefined name is the origin of one symbol. -/
structure PatchRead.Exact (r : PatchRead) (p : PatchElf) (syms : List SymFacts) : Prop where
  cus : p.cus = some r.cus
  symtab : p.symtab = some r.symtab
  dynsym : ∃ dynsym, p.dynsym = some dynsym ∧ dynSymName2idx dynsym = .ok r.name2idx
  gives : List.Forall₂ (Origin.Gives p r.name2idx r.mds) r.origins syms
  definitions : (r.origins.filterMap Origin.entry).Perm
    ((definedEntries r.symtab).filter fun e => !e.1.isMeta p.metaSecIdx)
  references : (r.origins.filterMap Origin.undefName).Perm (undefinedNames r.symtab)
  metadata : (r.objs.map Prod.snd).Perm
    ((definedEntries r.symtab).filter fun e => e.1.isMeta p.metaSecIdx)
  objects : ∀ o ∈ r.objs, o.1 ∈ r.cus.flatMap CU.dieSpots ∧
    o.1.dio.die.addr = some o.2.1.stValue
  values : r.objs.map (fun o => p.value o.1.dio) = r.mds.map .ok
  agree : ∀ md ∈ r.mds, ∀ md' ∈ r.mds, ∀ name code code',
    md.declared = some (name, code) → md'.declared = some (name, code') → code = code'
  dies : ∀ o ∈ r.origins, ∀ d ∈ o.die, d ∈ r.cus.flatMap CU.dieSpots

theorem externalRef_eq_ok {name2idx : List (String × Nat)} {name : String} {sym : ReadSymbol}
    (h : externalRef name2idx name = .ok sym) :
    sym.kind = .symRef ∧ getDynElfSym name2idx name = .ok (sym.name, sym.idx) ∧
      sym.visibility = .visExternal ∧ sym.parent = none := by
  obtain ⟨⟨dynName, dynIdx⟩, hdyn, h⟩ := bind_eq_ok_iff.mp h
  rw [getSymbol_eq_ok h]
  exact ⟨rfl, hdyn, rfl, rfl⟩

/-- An undeclared name defines nothing. -/
theorem defAt_undeclared (origins : List Origin) (names : List String) (pos : Nat) :
    defAt (origins ++ names.map Origin.undeclared) pos = defAt origins pos := by
  have hnone : (names.map Origin.undeclared).findIdx? (Origin.defines pos) = none := by
    rw [List.findIdx?_eq_none_iff]
    intro o ho
    obtain ⟨name, _, rfl⟩ := List.mem_map.mp ho
    rfl
  rw [defAt, List.findIdx?_append, hnone]
  exact Option.or_none

/-- A list whose parts are told apart by a test. -/
theorem perm_filter {α : Type} {p : α → Bool} {l front back : List α} (h : l.Perm (front ++ back))
    (hfront : ∀ a ∈ front, p a = true) (hback : ∀ a ∈ back, p a = false) :
    front.Perm (l.filter p) ∧ back.Perm (l.filter fun a => !p a) := by
  have hnone : back.filter p = [] :=
    List.filter_eq_nil_iff.mpr fun a ha => by simp [hback a ha]
  have hnone' : front.filter (fun a => !p a) = [] :=
    List.filter_eq_nil_iff.mpr fun a ha => by simp [hfront a ha]
  have hall : back.filter (fun a => !p a) = back :=
    List.filter_eq_self.mpr fun a ha => by simp [hback a ha]
  have hkeep := h.filter p
  have hdrop := h.filter fun a => !p a
  rw [List.filter_append, List.filter_eq_self.mpr hfront, hnone, List.append_nil] at hkeep
  rw [List.filter_append, hnone', hall, List.nil_append] at hdrop
  exact ⟨hkeep.symm, hdrop.symm⟩

/-- What has happened when the symbols are collected. -/
structure PatchElf.Collected (p : PatchElf) (cus : List CU) (di : DebugInfo)
    (st : List SymtabEntry) (read : SymtabRead) (env : ReadEnv) (w : Walk)
    (refs : List ReadSymbol) : Prop where
  units : p.cus = some cus
  init : DebugInfo.init (some cus) = .ok di
  symtab : p.symtab = some st
  entries : readSymtab (st.zipIdx.drop 1) ⟨[], []⟩ = .ok read
  dynsym : ∃ dynsym, p.dynsym = some dynsym ∧ dynSymName2idx dynsym = .ok env.name2idx
  patch : env.patch = p
  metaSecIdx : env.metaSecIdx = p.metaSecIdx
  walk : Walk.readDios env ((di.cus.flatMap CU.dieSpots).map DieSpot.dio)
    ⟨[none], fun _ => none, read.undefSymNames, read.defSyms, [], [], []⟩ = .ok w
  matched : w.defSyms = []
  externals : w.undefSymNames.mapM (externalRef env.name2idx) = .ok refs

theorem PatchElf.collect_eq_ok {p : PatchElf} {mds : List Metadata} {syms : List ReadSymbol}
    (h : p.collect = .ok (mds, syms)) :
    ∃ cus di st read env w refs, p.Collected cus di st read env w refs ∧ mds = w.mds ∧
      syms = w.symbols ++ refs := by
  obtain ⟨di, hdi, h⟩ := bind_eq_ok_iff.mp h
  obtain ⟨cus, hcus⟩ : ∃ cus, p.cus = some cus := by
    cases hcus : p.cus with
    | none =>
        rw [hcus] at hdi
        cases hdi
    | some cus => exact ⟨cus, rfl⟩
  rw [hcus] at hdi
  split at h
  · next st hst =>
      obtain ⟨secs, hsecs, h⟩ := bind_eq_ok_iff.mp h
      obtain ⟨_, _, hsecs⟩ := bind_eq_ok_iff.mp hsecs
      cases hsecs
      obtain ⟨read, hread, h⟩ := bind_eq_ok_iff.mp h
      split at h
      · next dynSt hdyn =>
          obtain ⟨name2idx, hname2idx, h⟩ := bind_eq_ok_iff.mp h
          dsimp only at h
          obtain ⟨dios, hdios, h⟩ := bind_eq_ok_iff.mp h
          have hspots : dios = (di.cus.flatMap CU.dieSpots).map DieSpot.dio := by
            rw [DebugInfo.iterDios_eq] at hdios
            cases hdios
            rw [List.map_flatMap]
            simp only [CU.map_dio_dieSpots]
          obtain ⟨w, hw, h⟩ := bind_eq_ok_iff.mp h
          rw [hspots] at hw
          split at h
          · cases h
          · next hempty =>
              obtain ⟨refs, hrefs, h⟩ := bind_eq_ok_iff.mp h
              cases h
              exact ⟨cus, di, st, read, _, w, refs,
                ⟨hcus, hdi, hst, hread, ⟨dynSt, hdyn, hname2idx⟩, rfl, rfl, hw,
                  by simpa using hempty, hrefs⟩, rfl, rfl⟩
      · cases h
  · cases h

/-- The whole of what is read when the walk is over. -/
def Walk.patchRead (w : Walk) (cus : List CU) (st : List SymtabEntry)
    (name2idx : List (String × Nat)) (objs : List (DieSpot × SymtabEntry × Nat))
    (origins : List Origin) : PatchRead :=
  ⟨cus, st, name2idx, w.mds, objs, origins ++ w.undefSymNames.map Origin.undeclared⟩

section Collected

variable {p : PatchElf} {cus : List CU} {di : DebugInfo} {st : List SymtabEntry}
  {read : SymtabRead} {env : ReadEnv} {w : Walk} {refs : List ReadSymbol}
  {objs : List (DieSpot × SymtabEntry × Nat)} {origins : List Origin}

/-- The names that are left give external symbols. -/
theorem PatchElf.Collected.externals_give (hc : p.Collected cus di st read env w refs)
    (hsettled : w.Settled) :
    List.Forall₂ (fun name (sym : ReadSymbol) =>
        (Origin.undeclared name).Gives p env.name2idx w.mds sym.facts ∧ sym.parent = none)
      w.undefSymNames refs := by
  have hleft : ∀ name ∈ w.undefSymNames, ∀ md ∈ w.mds, ∀ code,
      md.declared ≠ some (name, code) :=
    fun name hname md hmd code hdecl => hsettled md hmd name code hdecl hname
  refine ((List.forall₂_and_left _ _).mpr ⟨hleft, mapM_eq_ok hc.externals⟩).imp ?_
  rintro name sym ⟨hname, hsym⟩
  obtain ⟨hkind, hdyn, hvis, hparent⟩ := externalRef_eq_ok hsym
  exact ⟨⟨hkind, hdyn, hvis, hname⟩, hparent⟩

/-- The entries are told apart by their section. -/
theorem PatchElf.Collected.entries_perm (hc : p.Collected cus di st read env w refs)
    {front : List DieSpot} (hacc : w.Accounts env read front objs origins) :
    (objs.map Prod.snd).Perm ((definedEntries st).filter fun e => e.1.isMeta p.metaSecIdx) ∧
      (origins.filterMap Origin.entry).Perm
        ((definedEntries st).filter fun e => !e.1.isMeta p.metaSecIdx) := by
  obtain ⟨_, hdefs, _⟩ := readSymtab_eq_ok hc.entries List.nodup_nil
  rw [List.nil_append] at hdefs
  have hsplit := hacc.defs
  rw [hdefs, hc.matched, List.nil_append] at hsplit
  rw [← hc.metaSecIdx]
  refine perm_filter hsplit ?_ hacc.entries
  intro e he
  obtain ⟨o, ho, rfl⟩ := List.mem_map.mp he
  exact (hacc.objects o ho).2.1

/-- The names are declared or left. -/
theorem PatchElf.Collected.names_perm (hc : p.Collected cus di st read env w refs)
    {front : List DieSpot} (hacc : w.Accounts env read front objs origins) :
    (origins.filterMap Origin.undefName ++ w.undefSymNames).Perm (undefinedNames st) := by
  obtain ⟨hnames, _, _⟩ := readSymtab_eq_ok hc.entries List.nodup_nil
  rw [List.nil_append] at hnames
  have hperm := hacc.names
  rw [hnames] at hperm
  exact List.perm_append_comm.trans hperm.symm

theorem PatchElf.Collected.exact (hc : p.Collected cus di st read env w refs)
    (hacc : w.Accounts env read (di.cus.flatMap CU.dieSpots) objs origins) (hsettled : w.Settled) :
    (w.patchRead cus st env.name2idx objs origins).Exact p
      ((w.symbols ++ refs).map ReadSymbol.facts) := by
  have hspots : ∀ d ∈ di.cus.flatMap CU.dieSpots, d ∈ cus.flatMap CU.dieSpots := by
    intro d hd
    exact ((DebugInfo.cus_perm hc.init).flatMap_right CU.dieSpots).mem_iff.mp hd
  obtain ⟨hobjs, hentries⟩ := hc.entries_perm hacc
  have hnone : (w.undefSymNames.map Origin.undeclared).filterMap Origin.entry = [] := by
    rw [List.filterMap_map]
    exact List.filterMap_none _
  have hall : (w.undefSymNames.map Origin.undeclared).filterMap Origin.undefName =
      w.undefSymNames := by
    rw [List.filterMap_map]
    exact List.filterMap_some
  refine { cus := hc.units, symtab := hc.symtab, dynsym := hc.dynsym, gives := ?_
           definitions := ?_, references := ?_, metadata := hobjs, objects := ?_, values := ?_
           agree := ?_, dies := ?_ }
  · rw [List.forall₂_map_right_iff]
    refine List.rel_append ?_ ?_
    · rw [← hc.patch]
      exact hacc.gives
    · rw [List.forall₂_map_left_iff]
      exact (hc.externals_give hsettled).imp fun _ _ hgives => hgives.1
  · show ((origins ++ w.undefSymNames.map Origin.undeclared).filterMap Origin.entry).Perm _
    rw [List.filterMap_append, hnone, List.append_nil]
    exact hentries
  · show ((origins ++ w.undefSymNames.map Origin.undeclared).filterMap Origin.undefName).Perm _
    rw [List.filterMap_append, hall]
    exact hc.names_perm hacc
  · intro o ho
    obtain ⟨hmem, _, haddr⟩ := hacc.objects o ho
    exact ⟨hspots _ hmem, haddr⟩
  · rw [← hc.patch]
    exact hacc.values
  · intro md hmd md' hmd' name code code' hdecl hdecl'
    have hnoted := hacc.noted md hmd name code hdecl
    rw [hacc.noted md' hmd' name code' hdecl'] at hnoted
    exact (Option.some.inj hnoted).symm
  · refine List.forall_mem_append.mpr ⟨?_, ?_⟩
    · intro o ho d hd
      obtain ⟨e, he, hmem⟩ := hacc.dies o ho
      rw [he] at hd
      cases hd
      exact hspots d hmem
    · intro o ho d hd
      obtain ⟨name, _, rfl⟩ := List.mem_map.mp ho
      cases hd

/-- The parents of all the symbols. -/
theorem PatchElf.Collected.parents (hc : p.Collected cus di st read env w refs)
    (hlinked : w.Linked (di.cus.flatMap CU.dieSpots) origins) (hsettled : w.Settled) :
    List.Forall₂ (fun o (sym : ReadSymbol) =>
        sym.parent = o.parentIn (origins ++ w.undefSymNames.map Origin.undeclared))
      (origins ++ w.undefSymNames.map Origin.undeclared) (w.symbols ++ refs) := by
  have hsame : ∀ o : Origin, o.parentIn (origins ++ w.undefSymNames.map Origin.undeclared) =
      o.parentIn origins := by
    intro o
    rw [Origin.parentIn, Origin.parentIn]
    cases o.die with
    | none => rfl
    | some d => exact findSome?_congr fun pos _ => defAt_undeclared origins _ pos
  refine List.rel_append ?_ ?_
  · refine hlinked.parents.imp ?_
    intro o sym hparent
    rw [hsame, hparent]
  · rw [List.forall₂_map_left_iff]
    refine (hc.externals_give hsettled).imp ?_
    rintro name sym ⟨_, hparent⟩
    exact hparent

end Collected

/-- The symbols of a patch in front of `process_meta`. -/
theorem PatchElf.collect_exact {p : PatchElf} {mds : List Metadata} {syms : List ReadSymbol}
    (h : p.collect = .ok (mds, syms)) :
    ∃ r : PatchRead, r.Exact p (syms.map ReadSymbol.facts) ∧ ParentsInFront syms ∧
      (UnitsApart r.cus →
        List.Forall₂ (fun o (sym : ReadSymbol) => sym.parent = o.parentIn r.origins)
          r.origins syms) := by
  obtain ⟨cus, di, st, read, env, w, refs, hc, rfl, rfl⟩ := PatchElf.collect_eq_ok h
  obtain ⟨_, _, hnodup⟩ := readSymtab_eq_ok hc.entries List.nodup_nil
  obtain ⟨hchain, hhead⟩ := dieSpots_follow di.cus
  obtain ⟨objs, origins, hinv⟩ :=
    Walk.readDios_inv (Walk.Inv.start env hnodup) hchain hhead hc.walk
  rw [List.nil_append] at hinv
  refine ⟨w.patchRead cus st env.name2idx objs origins, hc.exact hinv.accounts hinv.settled,
    ?_, ?_⟩
  · refine ParentsInFront.append hinv.indexed.parents ?_
    intro sym hsym
    obtain ⟨_, _, _, hparent⟩ :=
      Groups.exists_of_forall₂ (hc.externals_give hinv.settled) hsym
    exact hparent
  · intro hapart
    have hperm := (DebugInfo.cus_perm hc.init).flatMap_right CU.dieSpots
    have hpos := (hperm.map DieSpot.pos).nodup_iff.mpr hapart.nodup_pos
    exact hc.parents (hinv.linked hpos) hinv.settled

/-- `read_patch` loses and duplicates no symbol.  The parent of a symbol that is
found in the debug information is the nearest DIE around its own that has given a
definition. -/
theorem PatchElf.readPatch_exact {p : PatchElf} {syms : List PatchSym}
    (h : p.readPatch = .ok syms) :
    ∃ r : PatchRead, r.Exact p (syms.map PatchSym.facts) ∧
      (UnitsApart r.cus → List.Forall₂ (fun o (s : PatchSym) =>
          s.symbol.parent =
            ((o.parentIn r.origins).bind fun i => syms[i]?).map PatchSym.symbol)
        r.origins syms) := by
  obtain ⟨⟨mds, read⟩, hcollect, h⟩ := bind_eq_ok_iff.mp h
  obtain ⟨symbols, hmeta, h⟩ := bind_eq_ok_iff.mp h
  cases h
  obtain ⟨r, hexact, hfront, hparents⟩ := PatchElf.collect_exact hcollect
  have hkeeps := processMeta_keeps hmeta
  have hlinked := linkSymbols_parents (symbols.map ReadSymbol.targetName) (hfront.of_keeps hkeeps)
  generalize linkSymbols (symbols.map ReadSymbol.targetName) symbols [] = syms at hlinked ⊢
  have hboth : List.Forall₂ (fun (sym : ReadSymbol) (s : PatchSym) => s.facts = sym.facts ∧
      s.symbol.parent = (sym.parent.bind fun i => syms[i]?).map PatchSym.symbol) read syms := by
    refine Groups.forall₂_comp ?_ hkeeps hlinked
    rintro a b s ⟨hfacts, hparent⟩ ⟨hfacts', hparent'⟩
    exact ⟨hfacts'.trans hfacts, by rw [hparent', hparent]⟩
  refine ⟨r, ?_, ?_⟩
  · rw [← Groups.map_eq_of_forall₂ hboth fun _ _ hab => hab.1.symm]
    exact hexact
  · intro hapart
    refine Groups.forall₂_comp ?_ (hparents hapart) hboth
    rintro o sym s hparent ⟨_, hlink⟩
    rw [hlink, hparent]

/-- A name that is left undefined. -/
def undefEntry (name : String) : SymtabEntry :=
  ⟨name, 0, 0, .other 0, .stbGlobal, .stvDefault, .shnUndef⟩

/-- A patch with the functions `fix` and `rest`.  `fix` declares `count` to be
static, and `puts` is not declared. -/
def declaringPatch : PatchElf where
  cus := some [nestedUnit 0 (unitDie "a.c") (funcDie "fix" 0x2000) (varDie "vzpatch_sym_0" 0x3000)
    (funcDie "rest" 0x2010)]
  sections := ["", ".text", "vzp_meta"]
  symtab := some [nullEntry, funcEntry "fix" 0x2000, metaEntry "vzpatch_sym_0" 0x3000,
    funcEntry "rest" 0x2010, undefEntry "count", undefEntry "puts"]
  dynsym := some [nullEntry, undefEntry "count", undefEntry "puts"]
  srcLocation := fun dio => .ok ("a.c", dio.diePos)
  value := fun dio => .ok ⟨"a.c", dio.diePos, .tagSymbol "count" 100 none⟩

/-- A symbol of the patch. -/
def declaringInfo (kind : SymKind) (visibility : Visibility) (name : String)
    (loc : Option (String × Nat)) : SymInfo :=
  ⟨kind, visibility, name, loc, name, none, ["fix", "count", "rest", "puts"]⟩

/-- The symbols of the patch.  The parent of `count` is `fix`. -/
def declaringSyms : List PatchSym :=
  let fix := Symbol.top (declaringInfo .symDef .visStatic "fix" (some ("a.c", 21)))
  [⟨fix, 0x2000, 1⟩,
    ⟨.nested (declaringInfo .symRef .visStatic "count" (some ("a.c", 30))) fix, 0, 1⟩,
    ⟨.top (declaringInfo .symDef .visStatic "rest" (some ("a.c", 41))), 0x2010, 3⟩,
    ⟨.top (declaringInfo .symRef .visExternal "puts" none), 0, 2⟩]

theorem declaringPatch_exact :
    declaringPatch.readPatch = .ok declaringSyms ∧
      ∃ r : PatchRead, r.Exact declaringPatch (declaringSyms.map PatchSym.facts) ∧
        List.Forall₂ (fun o (s : PatchSym) =>
            s.symbol.parent =
              ((o.parentIn r.origins).bind fun i => declaringSyms[i]?).map PatchSym.symbol)
          r.origins declaringSyms := by
  have hread : declaringPatch.readPatch = .ok declaringSyms := rfl
  obtain ⟨r, hexact, hparents⟩ := PatchElf.readPatch_exact hread
  have hcus := Option.some.inj hexact.cus
  refine ⟨hread, r, hexact, hparents ?_⟩
  rw [← hcus]
  exact ⟨List.pairwise_singleton _ _, by simp [nestedUnit]⟩

/-- A patch that leaves `completed.1` undefined. -/
def completedPatch : PatchElf where
  cus := some [twoDies 0 (unitDie "a.c") (funcDie "fix" 0x2000) (funcDie "rest" 0x2010)]
  sections := ["", ".text"]
  symtab := some [nullEntry, funcEntry "fix" 0x2000, funcEntry "rest" 0x2010,
    undefEntry "completed.1"]
  dynsym := some [nullEntry, undefEntry "completed.1"]
  srcLocation := fun dio => .ok ("a.c", dio.diePos)
  value := fun _ => .error .assertionError

/-- The name is undefined and not weak, and no reference is returned for it. -/
theorem completedPatch_no_reference :
    (∃ st, completedPatch.symtab = some st ∧ ∃ e ∈ st, e.name = "completed.1" ∧
        e.stShndx = .shnUndef ∧ e.bind ≠ .stbWeak) ∧
      ∃ syms, completedPatch.readPatch = .ok syms ∧
        ∀ s ∈ syms, s.symbol.info.kind ≠ .symRef := by
  have hbind : (undefEntry "completed.1").bind ≠ .stbWeak := by
    simp [undefEntry, StBind.stbWeak]
  refine ⟨⟨_, rfl, undefEntry "completed.1", by simp, rfl, rfl, hbind⟩, _, rfl, ?_⟩
  decide

end Nsb
