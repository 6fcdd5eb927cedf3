import Nsb.Generator.FileScopes

/-!
# Reading a patch

`read_patch` of `patch_symbol.py`.  The symbol table of the patch has its
definitions and the names it leaves undefined.  The walk over the debug
information gives every definition its visibility, place and parent, and reads
the metadata, which declare the undefined names.  What is undeclared is
external.

The place of a declaration is read through the line program, and a metadata
object is read from the memory of the patch through its type.  Both are given
by the patch: `srcLocation` is `get_src_location` and `value` is `get_value`.
-/

namespace Nsb

/-! ## Symbol tables -/

/-- The types of a symbol in a symbol table. -/
inductive StType where
  | sttObject
  | sttFunc
  | other (code : Nat)
deriving DecidableEq, Repr

/-- The section of a symbol.  `other` is a reserved index, which is read as its
name. -/
inductive StShndx where
  | shnUndef
  | index (n : Nat)
  | other (text : String)
deriving DecidableEq, Repr

/-- `STB_WEAK`. -/
def StBind.stbWeak : StBind := .other 2

/-- An entry of a symbol table with all its fields. -/
structure SymtabEntry where
  name : String
  stValue : Nat
  stSize : Nat
  stType : StType
  bind : StBind
  visibility : StVisibility
  stShndx : StShndx
deriving DecidableEq, Repr

/-- The entry as the classes of symbols see it. -/
def SymtabEntry.elfSym (s : SymtabEntry) : ElfSym :=
  ⟨s.name, s.stValue, s.stShndx = .shnUndef, s.bind, s.visibility⟩

/-- `sym.entry.st_info.type in [STR.STT_OBJECT, STR.STT_FUNC]`. -/
def SymtabEntry.isObjectOrFunc (s : SymtabEntry) : Bool :=
  s.stType = .sttObject || s.stType = .sttFunc

/-- What the generator reads of a patch. -/
structure PatchElf where
  cus : Option (List CU)
  sections : List String
  symtab : Option (List SymtabEntry)
  dynsym : Option (List SymtabEntry)
  srcLocation : Dio → Except Raised (String × Nat)
  value : Dio → Except Raised Metadata

/-- `IGNORED_SYM_RE.match`.  `$` also matches in front of a last newline. -/
def isIgnoredSym (name : String) : Bool :=
  let chars := name.toList
  let digits := chars.drop "completed.".length
  let digits := if digits.getLast? = some '\n' then digits.dropLast else digits
  "completed.".toList.isPrefixOf chars && !digits.isEmpty && digits.all Char.isDigit

/-- What the loop over the symbol table leaves: `undef_sym_names` and
`def_elf_addr2sym`, in the order of the table. -/
structure SymtabRead where
  undefSymNames : List String
  defSyms : List (SymtabEntry × Nat)
deriving DecidableEq, Repr

/-- The loop over the symbol table. -/
def readSymtab : List (SymtabEntry × Nat) → SymtabRead → Except Raised SymtabRead
  | [], read => .ok read
  | (s, idx) :: entries, read =>
      if s.bind = .stbWeak then readSymtab entries read
      else if isIgnoredSym s.name then readSymtab entries read
      else if s.stShndx = .shnUndef then do
        pyAssert (s.name ∉ read.undefSymNames)
        readSymtab entries { read with undefSymNames := read.undefSymNames ++ [s.name] }
      else if s.stSize = 0 then readSymtab entries read
      else if !s.isObjectOrFunc then readSymtab entries read
      else do
        pyAssert (s.stValue ∉ read.defSyms.map fun e => e.1.stValue)
        readSymtab entries { read with defSyms := read.defSyms ++ [(s, idx)] }

/-- `reverse_mapping` of names by their index. -/
def reverseMapping (names : List (String × Nat)) : Except Raised (List (String × Nat)) := do
  pyAssert (names.map Prod.fst).Nodup
  pure names

/-- `dyn_sym_name2idx`. -/
def dynSymName2idx (dynsym : List SymtabEntry) : Except Raised (List (String × Nat)) :=
  reverseMapping ((dynsym.zipIdx.filter fun e => e.1.stShndx = .shnUndef).map
    fun e => (e.1.name, e.2))

/-- `get_dyn_elf_sym`: the name without its version, and its index. -/
def getDynElfSym (name2idx : List (String × Nat)) (name : String) :
    Except Raised (String × Nat) :=
  let name := String.ofList (name.toList.takeWhile (· ≠ '@'))
  match name2idx.lookup name with
  | none => .error (.exception ("Symbol '" ++ name ++ "' is not found"))
  | some idx => .ok (name, idx)

/-! ## The walk -/

/-- What the walk reads and does not change. -/
structure ReadEnv where
  patch : PatchElf
  di : DebugInfo
  metaSecIdx : Option Nat
  defSymNames : List String
  name2idx : List (String × Nat)

/-- The variables of the walk.  `diePosMap` has the symbol of a DIE by its
index in `symbols`. -/
structure Walk where
  diePosStack : List (Option Nat)
  diePosMap : Nat → Option Nat
  undefSymNames : List String
  defSyms : List (SymtabEntry × Nat)
  symRefName2vis : List (String × Int)
  symbols : List ReadSymbol
  mds : List Metadata

/-- The stack at an object: `DI_ROOT` is `none`. -/
def Walk.enter (w : Walk) (dio : Dio) : Except Raised Walk :=
  match w.diePosStack.idxOf? dio.parentDiePos with
  | none => .error .valueError
  | some i => .ok { w with diePosStack := w.diePosStack.take (i + 1) ++ [some dio.diePos] }

/-- `parent_sym`: the symbol of the nearest object of the stack that has one. -/
def Walk.parentSym (w : Walk) : Option Nat :=
  w.diePosStack.reverse.findSome? fun pos => pos.bind w.diePosMap

/-- `get_symbol` with the assertions of the constructors.  The second name is
that of the target file of a static reference. -/
def getSymbol (kind : SymKind) (visibility : Visibility) (parent : Option Nat)
    (name : String) (stValue idx : Nat) (loc : Option (String × Nat))
    (targetFilename : Option String) : Except Raised ReadSymbol := do
  pyAssert (loc.all fun l => 0 < l.2)
  pyAssert (visibility ≠ .visStatic || loc.any fun l => l.1 ≠ "")
  pure ⟨kind, visibility, name, loc, name, targetFilename, parent, stValue, idx⟩

/-- The visibility of a code in metadata. -/
def Visibility.ofCode? (code : Int) : Option Visibility :=
  if code = 0 then some .visExternal
  else if code = 1 then some .visInternal
  else if code = 2 then some .visHidden
  else if code = 3 then some .visProtected
  else if code = 100 then some .visStatic
  else none

/-- `verify_vis`. -/
def Walk.verifyVis (w : Walk) (loc : String × Nat) (symbol : String) (visibility : Int) :
    Except Raised Walk :=
  match w.symRefName2vis.lookup symbol with
  | none => .ok { w with symRefName2vis := (symbol, visibility) :: w.symRefName2vis }
  | some vis =>
      if vis ≠ visibility then
        .error (.exception ("Visibility mismatch for '" ++ symbol ++ "' at " ++
          placeText (some loc)))
      else if vis ≠ 1 ∧ vis ≠ 2 ∧ vis ≠ 3 then
        .error (.exception ("Symbol reference is redefined at " ++ placeText (some loc)))
      else .ok w

/-- The end of `handle_meta`: a symbol of the patch is declared. -/
def Walk.declare (env : ReadEnv) (w : Walk) (loc : String × Nat) (symbol : String)
    (visibility : Int) (targetFilename : Option String) : Except Raised Walk := do
  let w ← w.verifyVis loc symbol visibility
  -- an unused declaration is only reported
  if symbol ∉ w.undefSymNames then pure w
  else
    let (name, idx) ← getDynElfSym env.name2idx symbol
    let some vis := Visibility.ofCode? visibility | throw .keyError
    let file := if vis = .visStatic then targetFilename else none
    let sym ← getSymbol .symRef vis w.parentSym name 0 idx (some loc) file
    pure { w with
      undefSymNames := w.undefSymNames.erase symbol, symbols := w.symbols ++ [sym] }

/-- `VZP_FILE` has to stand at top level. -/
def checkTopLevel (env : ReadEnv) (dio : Dio) (loc : String × Nat) (body : MetaBody) :
    Except Raised Unit :=
  match body with
  | .tagFile _ => do
      match ← env.di.getParent dio with
      | none => throw .attributeError
      | some parent =>
          if parent.die.tag ≠ .compileUnit then
            throw (.exception ("VZP_FILE at " ++ placeText (some loc) ++
              " should be at top level "))
          else pure ()
  | _ => .ok ()

/-- `handle_meta`. -/
def Walk.handleMeta (env : ReadEnv) (w : Walk) (dio : Dio) (loc : String × Nat)
    (md : Metadata) : Except Raised Walk := do
  pyAssert (loc.1 = md.filename)
  checkTopLevel env dio loc md.body
  let w := { w with mds := w.mds ++ [md] }
  match md.body with
  | .tagSymbol symbol visibility targetFilename =>
      w.declare env loc symbol visibility targetFilename
  | _ => pure w

/-- `get_visibility`.  A local symbol of default visibility is static unless the
debug information says that it is external. -/
def getVisibility (s : SymtabEntry) (dio : Dio) : Except Raised Visibility :=
  match s.visibility with
  | .stvProtected => .ok .visProtected
  | .stvHidden => .ok .visHidden
  | .stvInternal => .ok .visInternal
  | .other code => .error (.exception ("Unknown symbol visibility: " ++ toString code))
  | .stvDefault =>
      match s.bind with
      | .stbGlobal => .ok .visExternal
      | .stbLocal => .ok (if dio.die.has .external then .visHidden else .visStatic)
      | .other code => .error (.exception ("Unknown symbol binding: " ++ toString code))

/-- `def_elf_addr2sym.pop`. -/
def Walk.popDef (w : Walk) (addr : Nat) : Except Raised (SymtabEntry × Nat × Walk) :=
  match w.defSyms.find? fun e => e.1.stValue = addr with
  | none => .error .keyError
  | some (s, idx) =>
      .ok (s, idx, { w with defSyms := w.defSyms.eraseP fun e => e.1.stValue = addr })

/-- A symbol is defined at an object. -/
def Walk.define (w : Walk) (dio : Dio) (loc : String × Nat) (s : SymtabEntry) (idx : Nat) :
    Except Raised Walk := do
  let vis ← getVisibility s dio
  -- only a function gets here, as the constructor asserts
  pyAssert (s.stType = .sttFunc)
  let sym ← getSymbol .symDef vis w.parentSym s.name s.stValue idx (some loc) none
  pure { w with
    symbols := w.symbols ++ [sym],
    diePosMap := Function.update w.diePosMap dio.diePos (some w.symbols.length) }

/-- An object at an address: its symbol is taken out of the definitions and
turned into metadata or a symbol of the patch. -/
def Walk.matchDio (env : ReadEnv) (w : Walk) (dio : Dio) (dioName : Option String)
    (addr : Nat) : Except Raised Walk := do
  let (s, idx, w) ← w.popDef addr
  let isMeta := env.metaSecIdx.any fun i => s.stShndx = .index i
  if !isMeta ∧ some s.name ≠ dioName then
    throw (.exception ("Symbol name '" ++ s.name ++ "' is mangled"))
  else
    let loc ← env.patch.srcLocation dio
    if s.stType = .sttObject ∧ !isMeta then
      throw (.exception ("Data symbol '" ++ s.name ++ "' is defined in patch at " ++
        placeText (some loc)))
    else if some loc.1 ≠ (← dio.cu.getCUName) then
      throw (.exception ("Symbol '" ++ s.name ++ "' is defined outside main file, in " ++
        placeText (some loc)))
    else if isMeta then w.handleMeta env dio loc (← env.patch.value dio)
    else w.define dio loc s idx

/-- The body of the walk. -/
def Walk.readDio (env : ReadEnv) (w : Walk) (dio : Dio) : Except Raised Walk := do
  let w ← w.enter dio
  if dio.die.tag ≠ .subprogram ∧ dio.die.tag ≠ .var then pure w
  else
    let dioName ← dio.die.getDieName false
    if !isPrefix env.defSymNames (dioName.getD "") then pure w
    else
      match ← env.di.getAddr dio with
      | none => pure w
      | some addr => w.matchDio env dio dioName addr

/-- The loop of the walk. -/
def Walk.readDios (env : ReadEnv) : List Dio → Walk → Except Raised Walk
  | [], w => .ok w
  | dio :: dios, w => do
      let w' ← w.readDio env dio
      readDios env dios w'

/-- The external reference of a name that no metadata declare. -/
def externalRef (name2idx : List (String × Nat)) (name : String) :
    Except Raised ReadSymbol := do
  let (name, idx) ← getDynElfSym name2idx name
  getSymbol .symRef .visExternal none name 0 idx none none

/-- The symbols and the metadata of a patch.  The names that are left come in
the order of a set. -/
def PatchElf.collect (p : PatchElf) : Except Raised (List Metadata × List ReadSymbol) := do
  let di ← DebugInfo.init p.cus
  let some st := p.symtab | throw .attributeError
  let secName2idx ← reverseMapping p.sections.zipIdx
  let read ← readSymtab (st.zipIdx.drop 1) ⟨[], []⟩
  let some dynSt := p.dynsym | throw .attributeError
  let name2idx ← dynSymName2idx dynSt
  let names := (read.defSyms.map fun e => e.1.name).insertionSort (· ≤ ·)
  let env : ReadEnv := ⟨p, di, secName2idx.lookup "vzp_meta", names, name2idx⟩
  let dios ← di.iterDios
  let w ← Walk.readDios env dios
    ⟨[none], fun _ => none, read.undefSymNames, read.defSyms, [], [], []⟩
  if !w.defSyms.isEmpty then
    throw (.exception "Can't match symtab entries with debuginfo objects")
  else
    let refs ← w.undefSymNames.mapM (externalRef name2idx)
    pure (w.mds, w.symbols ++ refs)

/-- `read_patch`.  Every symbol has the list of all symbols as its group. -/
def PatchElf.readPatch (p : PatchElf) : Except Raised (List PatchSym) := do
  let (mds, symbols) ← p.collect
  let symbols ← processMeta mds symbols
  pure (linkSymbols (symbols.map ReadSymbol.targetName) symbols [])

end Nsb
