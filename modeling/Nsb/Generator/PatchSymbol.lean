import Nsb.Generator.DebugInfo

/-!
# Symbols of a patch

The classes of symbols of `patch_symbol.py` and how each of them is resolved in
the target.
-/

namespace Nsb

/-! ## The target -/

/-- The bindings of a symbol in a symbol table. -/
inductive StBind where
  | stbLocal
  | stbGlobal
  | other (code : Nat)
deriving DecidableEq, Repr

/-- The visibilities of a symbol in a symbol table. -/
inductive StVisibility where
  | stvDefault
  | stvInternal
  | stvHidden
  | stvProtected
  | other (code : Nat)
deriving DecidableEq, Repr

/-- An entry of a symbol table.  `shnUndef` says that its section is
`SHN_UNDEF`. -/
structure ElfSym where
  name : String
  stValue : Nat
  shnUndef : Bool
  bind : StBind
  visibility : StVisibility
deriving DecidableEq, Repr

/-- What the generator reads of a target: its compile units if it has debug
information, and the two symbol tables. -/
structure Target where
  cus : Option (List CU)
  symtab : Option (List ElfSym)
  dynsym : Option (List ElfSym)

/-- `get_symbol_by_name`.  The library returns `None` for an empty list. -/
def getSymbolByName (st : List ElfSym) (name : String) : List ElfSym :=
  st.filter fun s => s.name = name

/-- `get_symtab`. -/
def Target.getSymtab (t : Target) : Except Raised (List ElfSym) :=
  match t.symtab with
  | none => .error (.exception "No symbol table")
  | some st => .ok st

/-! ## The map from addresses to objects -/

/-- `_get_dio_map` of a target.  `some none` is the empty dictionary that a
missing key leaves behind. -/
abbrev DioMap : Type := Nat → Option (Option Dio)

/-- The map before the first symbol. -/
def DioMap.empty : DioMap := fun _ => none

/-- `dio_map.setdefault`. -/
def DioMap.setdefault (m : DioMap) (addr : Nat) (dio : Dio) : DioMap :=
  if (m addr).isSome then m else Function.update m addr (some (some dio))

/-- `is_prefix` of `get_dio`, on the sorted names. -/
def isPrefix (names : List String) (n : String) : Bool :=
  match names[bisect (fun s => n ≤ s) names]? with
  | none => false
  | some s => n.toList.isPrefixOf s.toList

/-- The loop of `get_dio`. -/
def DebugInfo.fillDioMap (di : DebugInfo) (names : List String) :
    List Dio → DioMap → Except Raised DioMap
  | [], m => .ok m
  | dio :: dios, m => do
      let dioName ← dio.die.getDieName true
      let n := dioName.getD ""
      if n = "" then di.fillDioMap names dios m
      else if !isPrefix names n then di.fillDioMap names dios m
      else
        match ← di.getAddr dio with
        | none => di.fillDioMap names dios m
        | some addr => di.fillDioMap names dios (m.setdefault addr dio)

/-- `get_dio`.  Neither `None` nor an empty dictionary is an object: both are
`none`. -/
def Target.getDio (t : Target) (symAddr : Nat) (symGroup : List String) (m : DioMap) :
    Except Raised (Option Dio × DioMap) :=
  match m symAddr with
  | some (some dio) => .ok (some dio, m)
  | _ => do
      let di ← DebugInfo.init t.cus
      let dios ← di.iterDios
      let m' ← di.fillDioMap (symGroup.insertionSort (· ≤ ·)) dios m
      match m' symAddr with
      | some dio => pure (dio, m')
      | none => pure (none, Function.update m' symAddr (some none))

/-! ## Symbols -/

/-- The kinds of a symbol. -/
inductive SymKind where
  | symDef
  | symRef
deriving DecidableEq, Repr

/-- The visibilities of a symbol of a patch, one for each class. -/
inductive Visibility where
  | visExternal
  | visStatic
  | visInternal
  | visHidden
  | visProtected
deriving DecidableEq, Repr

/-- The attributes of a symbol other than its parent.  `group` has the target
names of the symbols of its group. -/
structure SymInfo where
  kind : SymKind
  visibility : Visibility
  name : String
  loc : Option (String × Nat)
  targetName : String
  targetFilename : Option String
  group : List String
deriving DecidableEq, Repr

/-- A symbol of a patch with the chain of its parents. -/
inductive Symbol where
  | top (info : SymInfo)
  | nested (info : SymInfo) (parent : Symbol)

/-- The attributes of a symbol. -/
def Symbol.info : Symbol → SymInfo
  | .top info => info
  | .nested info _ => info

/-- `Symbol.__str__`. -/
def SymInfo.str (info : SymInfo) : String :=
  let vis := match info.visibility with
    | .visExternal => "E"
    | .visStatic => "S"
    | .visInternal => "I"
    | .visHidden => "H"
    | .visProtected => "P"
  let kind := match info.kind with
    | .symRef => "SYM_REF"
    | .symDef => "SYM_DEF"
  let loc := match info.loc with
    | some (filename, line) => "@" ++ filename ++ ":" ++ toString line
    | none => ""
  kind ++ "<" ++ vis ++ ":" ++ info.name ++ loc ++ ">"

/-- The names of `self.group or [self]`. -/
def SymInfo.groupNames (info : SymInfo) : List String :=
  if info.group.isEmpty then [info.targetName] else info.group

/-- The target file name of a symbol, unless it is `None` or empty. -/
def SymInfo.targetFile (info : SymInfo) : Option String :=
  info.targetFilename.filter (· ≠ "")

/-! ## Static symbols -/

/-- The end of `StaticSymbol._get_dio`: the lookup under the parent object. -/
def SymInfo.lookupIn (info : SymInfo) (parentDio : Option Dio) : Except Raised (Option Dio) := do
  pyAssert (info.targetName ≠ "")
  match parentDio with
  | some dio => dio.lookup info.targetName
  | none => pure none

/-- `StaticSymbol._get_dio` of a symbol without a parent. -/
def SymInfo.topGetDio (t : Target) (info : SymInfo) (m : DioMap) :
    Except Raised (Option Dio × DioMap) := do
  match info.targetFile with
  | some filename =>
      let di ← DebugInfo.init t.cus
      let dio ← info.lookupIn (di.lookup filename)
      pure (dio, m)
  | none =>
      let st ← t.getSymtab
      match getSymbolByName st info.targetName with
      | [sym] => t.getDio sym.stValue info.groupNames m
      | _ => pure (none, m)

/-- The check of `StaticSymbol.get_dio`. -/
def SymInfo.checkStatic (info : SymInfo) (dio : Option Dio) : Except Raised Dio :=
  match dio with
  | none => .error .attributeError
  | some dio =>
      if dio.die.has .external then
        .error (.exception ("Symbol '" ++ info.str ++ "' in target is not static"))
      else .ok dio

/-- `get_dio` of a symbol.  That of a symbol that is not static calls
`resolve` without its argument. -/
def Symbol.getDio (t : Target) : Symbol → DioMap → Except Raised (Dio × DioMap)
  | .top info, m =>
      if info.visibility ≠ .visStatic then .error .typeError
      else do
        let (found, m') ← info.topGetDio t m
        let dio ← info.checkStatic found
        pure (dio, m')
  | .nested info parent, m =>
      if info.visibility ≠ .visStatic then .error .typeError
      else do
        let (parentDio, m') ← parent.getDio t m
        let found ← info.lookupIn (some parentDio)
        let dio ← info.checkStatic found
        pure (dio, m')

/-- `StaticSymbol.resolve`. -/
def Symbol.staticResolve (t : Target) (sym : Symbol) (m : DioMap) :
    Except Raised (Option Nat × DioMap) := do
  let (dio, m') ← sym.getDio t m
  let di ← DebugInfo.init t.cus
  let addr ← di.getAddr dio
  pure (addr, m')

/-! ## Other symbols -/

/-- `ExternalSymbol.resolve`. -/
def SymInfo.externalResolve (t : Target) (info : SymInfo) : Except Raised (Option Nat) := do
  let st ← t.getSymtab
  let globalSymList := (getSymbolByName st info.name).filter fun s =>
    !s.shnUndef && s.bind == .stbGlobal && s.visibility == .stvDefault
  match globalSymList with
  | [] => pure none
  | [s] => pure (some s.stValue)
  | _ => throw (.exception "Multiple symbols found")

/-- The test of `ModuleSymTab` whether the address of an object is masked. -/
def Target.isMasked (t : Target) (di : DebugInfo) (dio : Dio) : Except Raised Bool := do
  if dio.die.tag ≠ .var ∧ dio.die.tag ≠ .subprogram then pure false
  else
    match ← di.getParent dio with
    | none => throw .attributeError
    | some parent =>
        if parent.die.tag ≠ .compileUnit then pure false
        else if dio.die.has .declaration then pure false
        else if !dio.die.has .external then pure true
        else
          let symName ← match dio.die.attr .name with
            | none => throw .keyError
            | some (.string s) => pure (some s)
            | some (.strp s) => pure (some s)
            | some (.otherStr s) => pure (some s)
            | some _ => pure none
          let some dynSymtab := t.dynsym | throw .attributeError
          match symName.elim [] (getSymbolByName dynSymtab) with
          | [] => pure false
          | [sym] => pure (sym.visibility ≠ .stvProtected)
          | _ => throw .assertionError

/-- The loop of `ModuleSymTab.__init__`. -/
def Target.maskedAddrs (t : Target) (di : DebugInfo) : List Dio → Except Raised (List Nat)
  | [] => .ok []
  | dio :: dios => do
      let addr ← if ← t.isMasked di dio then di.getAddr dio else pure none
      let addrs ← t.maskedAddrs di dios
      pure (addr.toList ++ addrs)

/-- `ModuleSymTab.get_sym` with `missing_ok`.  A name that no symbol has gives
`None` to iterate. -/
def getSym (st : List ElfSym) (masked : List Nat) (name : String) :
    Except Raised (Option ElfSym) :=
  match getSymbolByName st name with
  | [] => .error .typeError
  | symList =>
      match symList.filter fun s => s.stValue ∉ masked with
      | [] => .ok none
      | [sym] => .ok (some sym)
      | syms => .error (.exception
          ("Found " ++ toString syms.length ++ " symbols with name '" ++ name ++ "'"))

/-- `ModuleSymbol.resolve`. -/
def SymInfo.moduleResolve (t : Target) (info : SymInfo) : Except Raised (Option Nat) := do
  let st ← t.getSymtab
  let di ← DebugInfo.init t.cus
  let masked ← t.maskedAddrs di (← di.iterDios)
  let sym ← getSym st masked info.name
  pure (sym.map ElfSym.stValue)

/-- `resolve` of a symbol. -/
def Symbol.resolve (t : Target) (sym : Symbol) (m : DioMap) :
    Except Raised (Option Nat × DioMap) :=
  match sym.info.visibility with
  | .visStatic => sym.staticResolve t m
  | .visExternal => do pure (← sym.info.externalResolve t, m)
  | _ => do pure (← sym.info.moduleResolve t, m)

end Nsb
