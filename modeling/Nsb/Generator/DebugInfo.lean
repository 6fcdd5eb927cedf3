import Mathlib.Data.List.Sort
import Nsb.Lib.Preorder
import Nsb.Generator.StaticSymbol

/-!
# Debug information

`debuginfo.py` of the generator: the DIEs of an ELF file, the objects that
stand for them and the table of the compile units.

A DIE is a tag with attributes.  Reading one from the debug information section
is the work of a library.  `CU.dieAt` is what it reads at an offset, and a
compile unit has the tree whose DIEs stand there.  The functions of the source
read the stream and never the tree.  What is written to the standard output is
left out, but what may be raised while it is put together is not.
-/

namespace Nsb

open Preorder (Entry EntryTree Node Subtree childrenOf)

/-! ## DIEs -/

/-- The tags the generator distinguishes. -/
inductive Tag where
  | compileUnit
  | subprogram
  | var
  | lexicalBlock
  | other (text : String)
deriving DecidableEq, Repr

/-- The name of a tag. -/
def Tag.text : Tag → String
  | .compileUnit => "DW_TAG_compile_unit"
  | .subprogram => "DW_TAG_subprogram"
  | .var => "DW_TAG_variable"
  | .lexicalBlock => "DW_TAG_lexical_block"
  | .other text => text

/-- The attributes the generator reads or looks for. -/
inductive AttrName where
  | name
  | external
  | entryPc
  | lowPc
  | constValue
  | declaration
  | location
  | abstractOrigin
  | artificial
  | other (code : Nat)
deriving DecidableEq, Repr

/-- The operations of a DWARF expression. -/
inductive DwOp where
  | addr (a : Nat)
  | other (code : Nat)
deriving DecidableEq, Repr

/-- The value of an attribute, by its form.  `otherStr` is a string in a form
that is neither `DW_FORM_string` nor `DW_FORM_strp`. -/
inductive Attribute where
  | string (s : String)
  | strp (s : String)
  | otherStr (s : String)
  | addr (a : Nat)
  | exprloc (ops : List DwOp)
  | other (code : Nat)
deriving DecidableEq, Repr

/-- A DIE without its place. -/
structure Die where
  tag : Tag
  attributes : List (AttrName × Attribute)
deriving DecidableEq, Repr

/-- `die.attributes.get`. -/
def Die.attr (die : Die) (key : AttrName) : Option Attribute := die.attributes.lookup key

/-- `key in die.attributes`. -/
def Die.has (die : Die) (key : AttrName) : Bool := (die.attr key).isSome

/-- `get_die_name`. -/
def Die.getDieName (die : Die) (emptyOk : Bool) : Except Raised (Option String) :=
  match die.attr .name with
  | none => if emptyOk then .ok none else .error (.exception "DIE has no name")
  | some (.string s) => .ok (some s)
  | some (.strp s) => .ok (some s)
  | some _ => .error .assertionError

/-- The texts `get_die_addr` returns in place of an address. -/
inductive NoAddr where
  | noLowPc
  | constantValue
  | isDeclaration
  | optimizedOut
  | notExprloc
  | notConstant
deriving DecidableEq, Repr

/-- What `get_die_addr` returns.  An empty expression leaves `None`. -/
inductive DieAddr where
  | addr (a : Nat)
  | text (why : NoAddr)
  | none
deriving DecidableEq, Repr

/-- `ExprVisitor.get_addr`, with its handler in `get_die_addr`. -/
def exprAddr : List DwOp → Option Nat → DieAddr
  | [], some a => .addr a
  | [], none => .none
  | .addr a :: ops, _ => exprAddr ops (some a)
  | .other _ :: _, _ => .text .notConstant

/-- `get_die_addr`. -/
def Die.getDieAddr (die : Die) : Except Raised DieAddr :=
  match die.tag with
  | .subprogram =>
      if die.has .entryPc then .error (.exception "DW_AT_entry_pc is not supported")
      else
        match die.attr .lowPc with
        | none => .ok (.text .noLowPc)
        | some (.addr a) => .ok (.addr a)
        | some _ => .error .assertionError
  | .var =>
      if die.has .constValue then .ok (.text .constantValue)
      else if die.has .declaration then .ok (.text .isDeclaration)
      else
        match die.attr .location with
        | none => .ok (.text .optimizedOut)
        | some (.exprloc ops) => .ok (exprAddr ops none)
        | some _ => .ok (.text .notExprloc)
  | _ => .error .assertionError

/-- The top DIE of a compile unit. -/
def unitDie (name : String) : Die := ⟨.compileUnit, [(.name, .strp name)]⟩

/-- A static function. -/
def funcDie (name : String) (addr : Nat) : Die :=
  ⟨.subprogram, [(.name, .strp name), (.lowPc, .addr addr)]⟩

/-- A static variable. -/
def varDie (name : String) (addr : Nat) : Die :=
  ⟨.var, [(.name, .strp name), (.location, .exprloc [.addr addr])]⟩

/-! ## Compile units -/

/-- A compile unit.  Its DIEs are laid out from `cuDieOffset` on and end in
front of its boundary. -/
structure CU where
  cuOffset : Nat
  unitLength : Nat
  initialLengthFieldSize : Nat
  cuDieOffset : Nat
  dieAt : Nat → Entry Die
  tree : EntryTree Die
  laid : tree.LaidOut dieAt cuDieOffset
  fits : cuDieOffset + tree.size ≤ cuOffset + unitLength + initialLengthFieldSize

/-- `cu_boundary` of `_iter_DIEs`. -/
def CU.cuBoundary (cu : CU) : Nat := cu.cuOffset + cu.unitLength + cu.initialLengthFieldSize

/-- The loop of `_iter_DIEs`.  `stack` is `parent_stack` from its top, without
`DI_ROOT` at the bottom.  An entry is not empty, so `left` iterations reach the
boundary when that many bytes are left. -/
def CU.iterLoop (cu : CU) : Nat → Nat → List Nat → Except Raised (List (Node Die))
  | 0, _, _ => .ok []
  | left + 1, dieOffset, stack =>
      if dieOffset < cu.cuBoundary then
        let entry := cu.dieAt dieOffset
        match entry.node with
        | some (die, hasChildren) => do
            let stack' := if hasChildren then dieOffset :: stack else stack
            let dies ←
              if stack'.isEmpty then pure []
              else cu.iterLoop left (dieOffset + entry.size) stack'
            pure (⟨dieOffset, die, stack.head?⟩ :: dies)
        | none =>
            match stack with
            | [] => .error .indexError
            | [_] => .ok []
            | _ :: stack' => cu.iterLoop left (dieOffset + entry.size) stack'
      else .ok []

/-- `_iter_DIEs`, from an offset on. -/
def CU.iterDIEs (cu : CU) (offset : Nat) : Except Raised (List (Node Die)) :=
  cu.iterLoop (cu.cuBoundary - offset) offset []

/-- `get_CU_name`. -/
def CU.getCUName (cu : CU) : Except Raised (Option String) := do
  match ← cu.iterDIEs cu.cuDieOffset with
  | [] => throw .stopIteration
  | cuDie :: _ =>
      if cuDie.value.tag ≠ .compileUnit then
        throw (.exception ("Unknown CU DIE tag " ++ cuDie.value.tag.text))
      else cuDie.value.getDieName false

/-! ## Objects -/

/-- `DebugInfoObject`. -/
structure Dio where
  cu : CU
  diePos : Nat
  die : Die
  parentDiePos : Option Nat

/-- The object of a DIE that `_iter_DIEs` yields. -/
def CU.dio (cu : CU) (node : Node Die) : Dio := ⟨cu, node.pos, node.value, node.parent⟩

/-- `DebugInfoObject.iter_children`. -/
def Dio.iterChildren (dio : Dio) : Except Raised (List Dio) := do
  let dies ← dio.cu.iterDIEs dio.diePos
  pure (((dies.drop 1).filter fun n => n.parent = some dio.diePos).map dio.cu.dio)

/-- The loop of `DebugInfoObject.lookup`. -/
def lookupLoop (name : String) : List Dio → Option Dio → Except Raised (Option Dio)
  | [], result => .ok result
  | dio :: dios, result => do
      let dioName ← dio.die.getDieName true
      if dioName = none ∨ dioName = some "" ∨ dioName ≠ some name then
        lookupLoop name dios result
      else if result.isSome then throw (.exception ("Duplicate DIO name " ++ name))
      else lookupLoop name dios (some dio)

/-- `DebugInfoObject.lookup`. -/
def Dio.lookup (dio : Dio) (name : String) : Except Raised (Option Dio) := do
  lookupLoop name (← dio.iterChildren) none

/-! ## The table of an ELF file -/

/-- `DebugInfo`. -/
structure DebugInfo where
  cuPos : List (Int × Option CU)
  cuNames : Option String → Option (Option CU)

/-- The loop of `DebugInfo.__init__`. -/
def DebugInfo.addCUs : List CU → DebugInfo → Except Raised DebugInfo
  | [], di => .ok di
  | cu :: cus, di => do
      let cuName ← cu.getCUName
      let cuNames :=
        if (di.cuNames cuName).isSome then Function.update di.cuNames cuName (some none)
        else di.cuNames
      addCUs cus ⟨di.cuPos ++ [(-(cu.cuOffset : Int), some cu)],
        Function.update cuNames cuName (some (some cu))⟩

/-- `DebugInfo.__init__`.  Without debug information there are no compile
units to iterate. -/
def DebugInfo.init (cus : Option (List CU)) : Except Raised DebugInfo :=
  match cus with
  | none => .error (.exception "No debuginfo in ELF")
  | some cus => do
      let di ← DebugInfo.addCUs cus ⟨[], fun _ => none⟩
      pure { di with
        cuPos := (di.cuPos ++ [(1, none)]).insertionSort fun a b => a.1 ≤ b.1 }

/-- `DebugInfo.lookup`. -/
def DebugInfo.lookup (di : DebugInfo) (cuName : String) : Option Dio :=
  match di.cuNames (some cuName) with
  | some (some cu) => (cu.dieAt cu.cuDieOffset).node.map fun n => ⟨cu, cu.cuDieOffset, n.1, none⟩
  | _ => none

/-- The compile units in the order of `iter_dios`.  The sentinel is skipped. -/
def DebugInfo.cus (di : DebugInfo) : List CU := (di.cuPos.reverse.drop 1).filterMap Prod.snd

/-- `DebugInfo.iter_dios`. -/
def DebugInfo.iterDios (di : DebugInfo) : Except Raised (List Dio) := do
  let dios ← di.cus.mapM fun cu => do pure ((← cu.iterDIEs cu.cuDieOffset).map cu.dio)
  pure dios.flatten

/-- `bisect.bisect` with the test that the key is in front of an element. -/
def bisect {α : Type} (before : α → Bool) (a : List α) : Nat :=
  (a.takeWhile fun x => !before x).length

/-- `DebugInfo.get_dio_by_pos`.  A key of one component is in front of a pair
with the same first component. -/
def DebugInfo.getDioByPos (di : DebugInfo) (pos : Nat) : Except Raised (Option Dio) :=
  match di.cuPos[bisect (fun e => -(pos : Int) ≤ e.1) di.cuPos]? with
  | none => .error .indexError
  | some (_, none) => .ok none
  | some (_, some cu) => do
      let dies ← cu.iterDIEs cu.cuDieOffset
      let diePos : List Int := -1 :: dies.map fun n => (n.pos : Int)
      let dieIdx := bisect (fun p => (pos : Int) < p) diePos
      pyAssert (0 < dieIdx)
      match (none :: dies.map some)[dieIdx - 1]? with
      | none => throw .indexError
      | some none => pure none
      | some (some die) =>
          if die.pos ≤ pos ∧ pos < die.pos + (cu.dieAt die.pos).size then
            pure (some (cu.dio die))
          else throw (.exception "Position is outside DIE")

/-- `DebugInfoObject.get_parent`. -/
def DebugInfo.getParent (di : DebugInfo) (dio : Dio) : Except Raised (Option Dio) :=
  match dio.parentDiePos with
  | some pos => di.getDioByPos pos
  | none => .ok none

/-- The loop of `DebugInfoObject.get_key`.  A parent stands in front of its
children, so the loop ends within as many steps as the position of the object. -/
def DebugInfo.keyLoop (di : DebugInfo) :
    Nat → Option Dio → Except Raised (Option (List (Option String × Tag)))
  | _, none => .ok (some [])
  | 0, some _ => .ok none
  | n + 1, some dio => do
      if dio.die.tag = .lexicalBlock then pure none
      else
        let symName ← dio.die.getDieName false
        let key ← di.keyLoop n (← di.getParent dio)
        pure (key.map (· ++ [(symName, dio.die.tag)]))

/-- `DebugInfoObject.get_key`. -/
def DebugInfo.getKey (di : DebugInfo) (dio : Dio) :
    Except Raised (Option (List (Option String × Tag))) :=
  if dio.die.tag ≠ .subprogram ∧ dio.die.tag ≠ .var then .ok none
  else if dio.die.has .abstractOrigin || dio.die.has .declaration || dio.die.has .artificial then
    .ok none
  else di.keyLoop (dio.diePos + 1) (some dio)

/-- `DebugInfoObject.get_addr`.  Without an address a warning names the
object by its key. -/
def DebugInfo.getAddr (di : DebugInfo) (dio : Dio) : Except Raised (Option Nat) := do
  match ← dio.die.getDieAddr with
  | .addr a => pure (some a)
  | .text _ => do
      let _ ← di.getKey dio
      pure none
  | .none => throw .assertionError

/-! ## The iterator recovers the tree -/

/-- From an offset and a stack on, `_iter_DIEs` yields `dies`. -/
def CU.Yields (cu : CU) (off : Nat) (stack : List Nat) (dies : List (Node Die)) : Prop :=
  ∀ left, cu.cuBoundary - off ≤ left → cu.iterLoop left off stack = .ok dies

theorem CU.Yields.of_step {cu : CU} {off : Nat} {stack : List Nat} {dies : List (Node Die)}
    (hoff : off < cu.cuBoundary)
    (h : ∀ left, cu.cuBoundary - (off + (cu.dieAt off).size) ≤ left →
      cu.iterLoop (left + 1) off stack = .ok dies) : cu.Yields off stack dies := by
  intro left hleft
  have hpos := (cu.dieAt off).size_pos
  cases left with
  | zero => omega
  | succ left => exact h left (by omega)

/-- A DIE after which the stack is not empty is yielded in front of the rest. -/
theorem CU.Yields.die {cu : CU} {off : Nat} {stack : List Nat} {dies : List (Node Die)} {d : Die}
    {flag : Bool} (hoff : off < cu.cuBoundary) (hnode : (cu.dieAt off).node = some (d, flag))
    (hne : (if flag then off :: stack else stack).isEmpty = false)
    (h : cu.Yields (off + (cu.dieAt off).size) (if flag then off :: stack else stack) dies) :
    cu.Yields off stack (⟨off, d, stack.head?⟩ :: dies) := by
  refine .of_step hoff fun left hleft => ?_
  rw [CU.iterLoop, if_pos hoff]
  simp only [hnode, hne, h left hleft]
  rfl

/-- A childless DIE at the bottom of the stack is the last one. -/
theorem CU.Yields.single {cu : CU} {off : Nat} {d : Die} (hoff : off < cu.cuBoundary)
    (hnode : (cu.dieAt off).node = some (d, false)) : cu.Yields off [] [⟨off, d, none⟩] := by
  refine .of_step hoff fun left _ => ?_
  rw [CU.iterLoop, if_pos hoff]
  simp only [hnode]
  rfl

/-- A null entry goes back to the parent. -/
theorem CU.Yields.null {cu : CU} {off p q : Nat} {stack : List Nat} {dies : List (Node Die)}
    (hoff : off < cu.cuBoundary) (hnode : (cu.dieAt off).node = none)
    (h : cu.Yields (off + (cu.dieAt off).size) (q :: stack) dies) :
    cu.Yields off (p :: q :: stack) dies := by
  refine .of_step hoff fun left hleft => ?_
  rw [CU.iterLoop, if_pos hoff]
  simp only [hnode, h left hleft]

theorem CU.Yields.null_last {cu : CU} {off p : Nat} (hoff : off < cu.cuBoundary)
    (hnode : (cu.dieAt off).node = none) : cu.Yields off [p] [] := by
  refine .of_step hoff fun left _ => ?_
  rw [CU.iterLoop, if_pos hoff]
  simp only [hnode]

mutual

/-- Within a list of children, a tree is yielded in front of what follows it. -/
theorem CU.yields_nodes {cu : CU} {p : Nat} {stack : List Nat} {dies : List (Node Die)} :
    {off : Nat} → {t : EntryTree Die} → t.LaidOut cu.dieAt off → off + t.size ≤ cu.cuBoundary →
      cu.Yields (off + t.size) (p :: stack) dies →
      cu.Yields off (p :: stack) (t.nodes (some p) off ++ dies)
  | off, .leaf d k, ⟨hsize, hnode⟩, hfit, h => by
      have hpos := (cu.dieAt off).size_pos
      rw [EntryTree.size] at hfit h
      rw [hsize] at hpos
      rw [← hsize] at h
      exact .die (by omega) hnode rfl h
  | off, .branch d k ts j, ⟨hsize, hnode, hlaid, hnull, hend⟩, hfit, h => by
      have hpos := (cu.dieAt off).size_pos
      have hnullPos := (cu.dieAt (off + k + EntryTree.sizes ts)).size_pos
      rw [hsize] at hpos
      rw [hnull] at hnullPos
      rw [EntryTree.size] at hfit h
      rw [← Nat.add_assoc, ← Nat.add_assoc, ← hnull] at h
      have hclose := CU.Yields.null (p := off) (by omega) hend h
      have hforest := CU.yields_forest hlaid (by omega) hclose
      rw [EntryTree.nodes, List.cons_append]
      refine .die (by omega) hnode rfl ?_
      rw [hsize]
      exact hforest

theorem CU.yields_forest {cu : CU} {p : Nat} {stack : List Nat} {dies : List (Node Die)} :
    {off : Nat} → {ts : List (EntryTree Die)} → EntryTree.LaidOuts cu.dieAt off ts →
      off + EntryTree.sizes ts ≤ cu.cuBoundary →
      cu.Yields (off + EntryTree.sizes ts) (p :: stack) dies →
      cu.Yields off (p :: stack) (EntryTree.forest (some p) off ts ++ dies)
  | off, [], _, _, h => h
  | off, t :: ts, ⟨ht, hts⟩, hfit, h => by
      rw [EntryTree.sizes] at hfit h
      rw [EntryTree.forest, List.append_assoc]
      exact CU.yields_nodes ht (by omega)
        (CU.yields_forest hts (by omega) (by rw [Nat.add_assoc]; exact h))

end

/-- Started at a tree of the stream, `_iter_DIEs` yields its nodes. -/
theorem CU.iterDIEs_eq {cu : CU} {off : Nat} {t : EntryTree Die} (h : t.LaidOut cu.dieAt off)
    (hfit : off + t.size ≤ cu.cuBoundary) : cu.iterDIEs off = .ok (t.nodes none off) := by
  have hpos := EntryTree.size_pos h
  suffices hy : cu.Yields off [] (t.nodes none off) from hy _ (Nat.le_refl _)
  cases t with
  | leaf d k => exact .single (by omega) h.2
  | branch d k ts j =>
      obtain ⟨hsize, hnode, hlaid, hnull, hend⟩ := h
      have hentry := (cu.dieAt off).size_pos
      have hnullPos := (cu.dieAt (off + k + EntryTree.sizes ts)).size_pos
      rw [hsize] at hentry
      rw [hnull] at hnullPos
      rw [EntryTree.size] at hfit
      have hforest := CU.yields_forest hlaid (by omega) (.null_last (p := off) (by omega) hend)
      rw [List.append_nil] at hforest
      refine .die (by omega) hnode rfl ?_
      rw [hsize]
      exact hforest

/-- The DIEs of a compile unit in preorder. -/
def CU.nodes (cu : CU) : List (Node Die) := cu.tree.nodes none cu.cuDieOffset

theorem CU.iterDIEs_top (cu : CU) : cu.iterDIEs cu.cuDieOffset = .ok cu.nodes :=
  CU.iterDIEs_eq cu.laid cu.fits

theorem CU.exists_subtree {cu : CU} {n : Node Die} (h : n ∈ cu.nodes) :
    ∃ s, Subtree cu.dieAt cu.cuDieOffset (cu.cuDieOffset + cu.tree.size) n cu.nodes s :=
  Preorder.exists_subtree cu.laid (fun _ hq => absurd hq (Option.some_ne_none _).symm) n h

/-- The immediate children of an object. -/
def Dio.children (dio : Dio) : List Dio := (childrenOf dio.diePos dio.cu.nodes).map dio.cu.dio

/-- An object that stands for a DIE of its compile unit. -/
def Dio.Valid (dio : Dio) : Prop := ∃ n ∈ dio.cu.nodes, dio = dio.cu.dio n

theorem Dio.valid_of_mem_children {dio child : Dio} (h : child ∈ dio.children) : child.Valid := by
  obtain ⟨n, hn, rfl⟩ := List.mem_map.mp h
  exact ⟨n, (List.mem_filter.mp hn).1, rfl⟩

/-- `iter_children` yields the immediate children. -/
theorem Dio.iterChildren_eq {dio : Dio} (h : dio.Valid) : dio.iterChildren = .ok dio.children := by
  obtain ⟨n, hn, hdio⟩ := h
  have hpos : dio.diePos = n.pos := by rw [hdio]; rfl
  obtain ⟨s, hs⟩ := CU.exists_subtree hn
  have hfit : n.pos + s.size ≤ dio.cu.cuBoundary := Nat.le_trans hs.upper dio.cu.fits
  have hdrop : ((s.nodes none n.pos).drop 1).filter (fun m => m.parent = some n.pos) =
      childrenOf n.pos (s.nodes none n.pos) := by
    cases s <;> rfl
  rw [Dio.iterChildren, Dio.children, hpos, CU.iterDIEs_eq hs.laid hfit, hs.children, ← hdrop]
  rfl

/-! ## Names -/

/-- The name of a DIE in any form. -/
def Die.name (die : Die) : Option String :=
  match die.attr .name with
  | some (.string s) => some s
  | some (.strp s) => some s
  | some (.otherStr s) => some s
  | _ => none

/-- A DIE without a name, or with one in a form that `get_die_name` takes. -/
def Die.nameOk (die : Die) : Bool :=
  match die.attr .name with
  | none => true
  | some (.string _) => true
  | some (.strp _) => true
  | _ => false

theorem Die.getDieName_eq_ok_iff {die : Die} {emptyOk : Bool} {x : Option String} :
    die.getDieName emptyOk = .ok x ↔
      die.nameOk = true ∧ (emptyOk = true ∨ die.name.isSome = true) ∧ die.name = x := by
  rw [Die.getDieName, Die.nameOk, Die.name]
  rcases die.attr .name with _ | (s | s | s | a | ops | c) <;> cases emptyOk <;> simp

/-- The objects of a list with a name. -/
def named (name : String) (dios : List Dio) : List Dio :=
  dios.filter fun dio => dio.die.name = some name

theorem named_cons_of_eq {name : String} {dio : Dio} (dios : List Dio)
    (h : dio.die.name = some name) : named name (dio :: dios) = dio :: named name dios :=
  List.filter_cons_of_pos (by simpa using h)

theorem named_cons_of_ne {name : String} {dio : Dio} (dios : List Dio)
    (h : dio.die.name ≠ some name) : named name (dio :: dios) = named name dios :=
  List.filter_cons_of_neg (by simpa using h)

/-- `lookup` finds the only object with the name, among objects whose names can
be read. -/
theorem lookupLoop_eq_ok_iff {name : String} (hname : name ≠ "") {dios : List Dio}
    {result r : Option Dio} :
    lookupLoop name dios result = .ok r ↔
      (∀ dio ∈ dios, dio.die.nameOk = true) ∧ result.toList ++ named name dios = r.toList := by
  induction dios generalizing result with
  | nil =>
      rw [lookupLoop, named, List.filter_nil, List.append_nil]
      cases result <;> cases r <;> simp
  | cons dio dios induction =>
      rw [lookupLoop, List.forall_mem_cons, bind_eq_ok_iff]
      -- the step after the name has been read
      have hstep : (if dio.die.name = none ∨ dio.die.name = some "" ∨ dio.die.name ≠ some name then
            lookupLoop name dios result
          else if result.isSome then throw (.exception ("Duplicate DIO name " ++ name))
          else lookupLoop name dios (some dio)) = .ok r ↔
          (∀ d ∈ dios, d.die.nameOk = true) ∧
            result.toList ++ named name (dio :: dios) = r.toList := by
        by_cases heq : dio.die.name = some name
        · rw [if_neg (by simp [heq, hname]), named_cons_of_eq dios heq]
          cases result with
          | none => simpa using @induction (some dio)
          | some d =>
              constructor
              · intro h
                cases h
              · rintro ⟨_, h⟩
                cases r <;> simp at h
        · rw [if_pos (.inr (.inr heq)), induction, named_cons_of_ne dios heq]
      constructor
      · rintro ⟨x, hread, h⟩
        obtain ⟨hok, _, rfl⟩ := Die.getDieName_eq_ok_iff.mp hread
        obtain ⟨hoks, hlist⟩ := hstep.mp h
        exact ⟨⟨hok, hoks⟩, hlist⟩
      · rintro ⟨⟨hok, hoks⟩, hlist⟩
        exact ⟨dio.die.name, Die.getDieName_eq_ok_iff.mpr ⟨hok, .inl rfl, rfl⟩,
          hstep.mpr ⟨hoks, hlist⟩⟩

/-- `lookup` of an object finds its only immediate child with the name. -/
theorem Dio.lookup_eq_ok_iff {dio : Dio} (h : dio.Valid) {name : String} (hname : name ≠ "")
    {r : Option Dio} :
    dio.lookup name = .ok r ↔
      (∀ child ∈ dio.children, child.die.nameOk = true) ∧ named name dio.children = r.toList := by
  rw [Dio.lookup, Dio.iterChildren_eq h]
  exact lookupLoop_eq_ok_iff hname

/-! ## The last compile unit of a name -/

/-- The name of a compile unit. -/
def CU.name (cu : CU) : Option String := cu.tree.value.name

/-- The name of a compile unit can be read by `get_CU_name`. -/
def CU.Readable (cu : CU) : Prop :=
  cu.tree.value.tag = .compileUnit ∧ cu.tree.value.nameOk = true ∧ cu.name.isSome = true

theorem CU.getCUName_eq_ok_iff {cu : CU} {x : Option String} :
    cu.getCUName = .ok x ↔ cu.Readable ∧ cu.name = x := by
  obtain ⟨rest, hrest⟩ := cu.tree.nodes_eq_cons none cu.cuDieOffset
  rw [CU.getCUName, CU.iterDIEs_top, CU.nodes, hrest, CU.Readable, CU.name]
  show (if _ then _ else _) = _ ↔ _
  by_cases htag : cu.tree.value.tag = .compileUnit
  · rw [if_neg (not_not_intro htag), Die.getDieName_eq_ok_iff]
    simp [htag, and_assoc]
  · rw [if_pos htag]
    constructor
    · intro h
      cases h
    · rintro ⟨⟨h, _⟩, _⟩
      exact absurd h htag

/-- The compile units of a name, in the order of the debug information. -/
def unitsNamed (name : String) (cus : List CU) : List CU :=
  cus.filter fun cu => cu.name = some name

/-- The object of the top DIE of a compile unit. -/
def CU.topDio (cu : CU) : Dio := ⟨cu, cu.cuDieOffset, cu.tree.value, none⟩

theorem CU.topDio_valid (cu : CU) : cu.topDio.Valid := by
  obtain ⟨rest, hrest⟩ := cu.tree.nodes_eq_cons none cu.cuDieOffset
  refine ⟨⟨cu.cuDieOffset, cu.tree.value, none⟩, ?_, rfl⟩
  show _ ∈ cu.nodes
  rw [CU.nodes, hrest]
  exact List.mem_cons_self

/-- The table is built when every name can be read.  A name that several
compile units have is that of the last of them. -/
theorem DebugInfo.addCUs_eq_ok {cus : List CU} (h : ∀ cu ∈ cus, cu.Readable) (di : DebugInfo) :
    ∃ di', DebugInfo.addCUs cus di = .ok di' ∧ ∀ f, di'.cuNames (some f) =
      ((unitsNamed f cus).getLast?.map some).or (di.cuNames (some f)) := by
  induction cus generalizing di with
  | nil => exact ⟨di, rfl, fun f => rfl⟩
  | cons cu cus induction =>
      rw [List.forall_mem_cons] at h
      obtain ⟨di', hdi', hnames⟩ := induction h.2 ⟨di.cuPos ++ [(-(cu.cuOffset : Int), some cu)],
        Function.update (if (di.cuNames cu.name).isSome then
          Function.update di.cuNames cu.name (some none) else di.cuNames) cu.name (some (some cu))⟩
      refine ⟨di', ?_, fun f => ?_⟩
      · rw [DebugInfo.addCUs, CU.getCUName_eq_ok_iff.mpr ⟨h.1, rfl⟩]
        exact hdi'
      · rw [hnames f, unitsNamed, unitsNamed]
        dsimp only
        by_cases hname : cu.name = some f
        · rw [List.filter_cons_of_pos (by simpa using hname), List.getLast?_cons, hname,
            Function.update_self]
          cases (cus.filter fun c => c.name = some f).getLast? <;> rfl
        · have hne : some f ≠ cu.name := fun h => hname h.symm
          rw [List.filter_cons_of_neg (by simpa using hname), Function.update_of_ne hne]
          split
          · rw [Function.update_of_ne hne]
          · rfl

theorem DebugInfo.addCUs_readable {cus : List CU} {di di' : DebugInfo}
    (h : DebugInfo.addCUs cus di = .ok di') : ∀ cu ∈ cus, cu.Readable := by
  induction cus generalizing di with
  | nil => exact fun _ h => nomatch h
  | cons cu cus induction =>
      rw [DebugInfo.addCUs] at h
      obtain ⟨x, hname, h⟩ := bind_eq_ok_iff.mp h
      rw [List.forall_mem_cons]
      exact ⟨(CU.getCUName_eq_ok_iff.mp hname).1, induction h⟩

/-- `DebugInfo` is built when there is debug information and the name of every
compile unit can be read. -/
theorem DebugInfo.init_eq_ok {cus : List CU} (h : ∀ cu ∈ cus, cu.Readable) :
    ∃ di, DebugInfo.init (some cus) = .ok di := by
  obtain ⟨di, hdi, -⟩ := DebugInfo.addCUs_eq_ok h ⟨[], fun _ => none⟩
  exact ⟨_, bind_eq_ok_iff.mpr ⟨di, hdi, rfl⟩⟩

theorem DebugInfo.readable_of_init {cus : Option (List CU)} {di : DebugInfo}
    (h : DebugInfo.init cus = .ok di) :
    ∃ l, cus = some l ∧ (∀ cu ∈ l, cu.Readable) ∧
      ∀ f, di.cuNames (some f) = (unitsNamed f l).getLast?.map some := by
  cases cus with
  | none => cases h
  | some l =>
      obtain ⟨di', hdi', hret⟩ := bind_eq_ok_iff.mp h
      cases hret
      have hread := DebugInfo.addCUs_readable hdi'
      obtain ⟨di'', hdi'', hnames⟩ := DebugInfo.addCUs_eq_ok hread ⟨[], fun _ => none⟩
      rw [hdi'] at hdi''
      cases hdi''
      exact ⟨l, rfl, hread, fun f => (hnames f).trans Option.or_none⟩

/-- `DebugInfo.lookup` finds the top DIE of the last compile unit of a name. -/
theorem DebugInfo.lookup_eq {di : DebugInfo} {f : String} {l : List CU}
    (h : di.cuNames (some f) = (unitsNamed f l).getLast?.map some) :
    di.lookup f = (unitsNamed f l).getLast?.map CU.topDio := by
  rw [DebugInfo.lookup, h]
  cases (unitsNamed f l).getLast? with
  | none => rfl
  | some cu =>
      obtain ⟨flag, hflag⟩ := cu.laid.root
      show ((cu.dieAt cu.cuDieOffset).node.map _) = _
      rw [hflag]
      rfl

/-- `iter_dios` yields the DIEs of every compile unit. -/
theorem DebugInfo.iterDios_eq (di : DebugInfo) :
    di.iterDios = .ok (di.cus.flatMap fun cu => cu.nodes.map cu.dio) := by
  have hunit : ∀ cu : CU, (do pure ((← cu.iterDIEs cu.cuDieOffset).map cu.dio)) =
      (pure (cu.nodes.map cu.dio) : Except Raised (List Dio)) := by
    intro cu
    rw [CU.iterDIEs_top]
    rfl
  rw [DebugInfo.iterDios]
  simp only [hunit, List.mapM_pure]
  rfl

theorem DebugInfo.valid_of_mem_iterDios {di : DebugInfo} {dios : List Dio}
    (h : di.iterDios = .ok dios) : ∀ dio ∈ dios, dio.Valid := by
  rw [DebugInfo.iterDios_eq] at h
  cases h
  intro dio hdio
  obtain ⟨cu, _, hmem⟩ := List.mem_flatMap.mp hdio
  obtain ⟨n, hn, rfl⟩ := List.mem_map.mp hmem
  exact ⟨n, hn, rfl⟩

/-! ## Addresses -/

/-- The address of a DIE that has one. -/
def Die.addr (die : Die) : Option Nat :=
  match die.getDieAddr with
  | .ok (.addr a) => some a
  | _ => none

theorem DebugInfo.getAddr_eq_some_iff {di : DebugInfo} {dio : Dio} {a : Nat} :
    di.getAddr dio = .ok (some a) ↔ dio.die.addr = some a := by
  rw [DebugInfo.getAddr, Die.addr, bind_eq_ok_iff]
  constructor
  · rintro ⟨r, hr, h⟩
    rw [hr]
    cases r with
    | addr b =>
        cases h
        rfl
    | text why =>
        obtain ⟨key, _, h⟩ := bind_eq_ok_iff.mp h
        cases h
    | none => cases h
  · intro h
    split at h
    · next b hb =>
        cases h
        exact ⟨_, hb, rfl⟩
    · cases h

/-- What `get_addr` returns is the address of the DIE, if it has one. -/
theorem DebugInfo.eq_addr_of_getAddr {di : DebugInfo} {dio : Dio} {r : Option Nat}
    (h : di.getAddr dio = .ok r) : r = dio.die.addr := by
  cases r with
  | some a => exact (DebugInfo.getAddr_eq_some_iff.mp h).symm
  | none =>
      cases haddr : dio.die.addr with
      | none => rfl
      | some a =>
          rw [DebugInfo.getAddr_eq_some_iff.mpr haddr] at h
          cases h

end Nsb
