import Nsb.Generator.PatchSymbol

/-!
# Binding contexts

`process_meta` of `patch_symbol.py`.  A patch carries metadata beside its
symbols: `VZP_FILE` opens a binding context for the rest of a source file,
`VZP_STATIC_SYM_ALIAS` gives a static symbol another name in the target, and the
macros for references declare a symbol with its visibility.  From these every
static symbol gets its target file name and its target name.

A symbol is an object of Python, and its parent is such an object too.  Here a
symbol that has been read names its parent by its index in the list of symbols,
and `linkSymbols` puts the chains of parents together once the contexts are
known.
-/

namespace Nsb

/-! ## Metadata and symbols -/

/-- The three kinds of metadata, by `header.tag`.  A null pointer is read as
`None`. -/
inductive MetaBody where
  | tagFile (targetFilename : Option String)
  | tagSymbol (symbol : String) (visibility : Int) (targetFilename : Option String)
  | tagAlias (patchSymbol targetSymbol : String)
  | other (tag : Int)
deriving DecidableEq, Repr

/-- A metadata object with the place of its header. -/
structure Metadata where
  filename : String
  line : Nat
  body : MetaBody
deriving DecidableEq, Repr

/-- A symbol as `read_patch` collects it.  `parent` is the index of a symbol in
front of it.  `stValue` and `idx` are those of `elf_sym`. -/
structure ReadSymbol where
  kind : SymKind
  visibility : Visibility
  name : String
  loc : Option (String × Nat)
  targetName : String
  targetFilename : Option String
  parent : Option Nat
  stValue : Nat
  idx : Nat
deriving DecidableEq, Repr

/-- A place in a message. -/
def placeText : Option (String × Nat) → String
  | none => "None:None"
  | some (filename, line) => filename ++ ":" ++ toString line

/-! ## Lines -/

/-- The states of a line in `verify_lines`. -/
inductive LineState where
  | stI
  | stR
  | stM
deriving DecidableEq, Repr

/-- The actions of `verify_lines`. -/
inductive LineAction where
  | actR
  | actM
deriving DecidableEq, Repr

/-- `line_state_table`. -/
def lineStateTable : LineState → LineAction → Option LineState
  | .stI, .actR => some .stR
  | .stI, .actM => some .stM
  | .stR, .actR => some .stR
  | _, _ => none

/-- `line_states`.  A line that has no state yet is in the initial one. -/
abbrev LineStates : Type := String × Nat → LineState

/-- `next_line_state`. -/
def nextLineState (states : LineStates) (loc : String × Nat) (action : LineAction) :
    Except Raised LineStates :=
  match lineStateTable (states loc) action with
  | none => .error (.exception
      ("Meta data should be defined on a separate line at " ++ placeText (some loc)))
  | some state => .ok (Function.update states loc state)

/-- The two loops of `verify_lines`, each with its action. -/
def nextLineStates (action : LineAction) :
    List (String × Nat) → LineStates → Except Raised LineStates
  | [], states => .ok states
  | loc :: locs, states => do
      let states' ← nextLineState states loc action
      nextLineStates action locs states'

/-- `verify_lines`.  A definition always has a place. -/
def verifyLines (mds : List Metadata) (symbols : List ReadSymbol) : Except Raised Unit := do
  let defs := symbols.filter fun sym => sym.kind = .symDef
  let states ← nextLineStates .actR (defs.filterMap ReadSymbol.loc) fun _ => .stI
  let _ ← nextLineStates .actM (mds.map fun md => (md.filename, md.line)) states
  pure ()

/-! ## File scopes and aliases -/

/-- `VZP_FILE` of a source file: its line and the target file name. -/
def Metadata.fileScope (filename : String) (md : Metadata) : Option (Nat × Option String) :=
  match md.body with
  | .tagFile targetFilename =>
      if md.filename = filename then some (md.line, targetFilename) else none
  | _ => none

/-- `file_scopes` of a source file, sorted by line.  It is empty when there is
no entry. -/
def fileScopes (mds : List Metadata) (filename : String) : List (Nat × Option String) :=
  (mds.filterMap (Metadata.fileScope filename)).insertionSort fun a b => a.1 ≤ b.1

/-- An alias with the place of its header. -/
structure Alias where
  filename : String
  line : Nat
  patchSymbol : String
  targetSymbol : String
deriving DecidableEq, Repr

/-- The key of an alias in `aliases`. -/
def Alias.isFor (filename name : String) (md : Alias) : Bool :=
  md.filename == filename && md.patchSymbol == name

/-- The loop of `process_meta` that fills `aliases`. -/
def collectAliases : List Metadata → List Alias → Except Raised (List Alias)
  | [], aliases => .ok aliases
  | md :: mds, aliases =>
      match md.body with
      | .tagAlias patchSymbol targetSymbol =>
          if aliases.any (Alias.isFor md.filename patchSymbol) then
            .error (.exception ("Alias already defined for symbol '" ++ patchSymbol ++ "' at " ++
              placeText (some (md.filename, md.line))))
          else collectAliases mds (aliases ++ [⟨md.filename, md.line, patchSymbol, targetSymbol⟩])
      | _ => collectAliases mds aliases

/-- `aliases.get(sym.filename, {}).pop(sym.name, None)`. -/
def popAlias (sym : ReadSymbol) (aliases : List Alias) : Option Alias × List Alias :=
  match sym.loc with
  | none => (none, aliases)
  | some (filename, _) =>
      (aliases.find? (Alias.isFor filename sym.name),
        aliases.eraseP (Alias.isFor filename sym.name))

/-! ## Resolving -/

/-- A symbol that names its target file itself. -/
def ReadSymbol.namesFile (sym : ReadSymbol) : Bool :=
  (sym.targetFilename.filter (· ≠ "")).isSome

/-- The target file name of a static symbol: its own, or that of the last scope
in front of its line.  `(sym.line,)` is in front of a scope of the same line. -/
def ReadSymbol.scopeFilename (mds : List Metadata) (sym : ReadSymbol) :
    Except Raised (Option String) :=
  if sym.namesFile then .ok sym.targetFilename
  else
    match sym.loc with
    | none => .ok sym.targetFilename
    | some (filename, line) =>
        match fileScopes mds filename with
        | [] => .ok sym.targetFilename
        | first :: rest =>
            if first.1 < line then do
              let idx := bisect (fun scope => line ≤ scope.1) (first :: rest)
              pyAssert (0 < idx)
              match (first :: rest)[idx - 1]? with
              | none => throw .indexError
              | some scope => pure scope.2
            else .ok sym.targetFilename

/-- The loop of `resolve_file_scopes`.  What is left in `aliases` after it is
reported; which of several comes first is up to the dictionary. -/
def resolveFileScopes (mds : List Metadata) :
    List ReadSymbol → List Alias → List (Option String × String) →
      Except Raised (List ReadSymbol)
  | [], [], _ => .ok []
  | [], md :: _, _ => .error (.exception ("Alias for nonexistent symbol '" ++ md.patchSymbol ++
      "' at " ++ placeText (some (md.filename, md.line))))
  | sym :: syms, aliases, defined =>
      if sym.visibility ≠ .visStatic then do
        let rest ← resolveFileScopes mds syms aliases defined
        pure (sym :: rest)
      else do
        let (aliasMd, aliases') := popAlias sym aliases
        let targetName := aliasMd.elim sym.name Alias.targetSymbol
        if sym.kind = .symRef ∧ sym.parent.isSome ∧ sym.namesFile then
          throw (.exception ("Target filename can not be specified in non-top-level reference at "
            ++ placeText sym.loc))
        else
          let targetFilename ← sym.scopeFilename mds
          let sym' := { sym with targetName := targetName, targetFilename := targetFilename }
          if sym.kind ≠ .symDef then
            let rest ← resolveFileScopes mds syms aliases' defined
            pure (sym' :: rest)
          else if (targetFilename, targetName) ∈ defined then
            let aliasLoc := aliasMd.elim "" fun md =>
              ", aliased at " ++ placeText (some (md.filename, md.line))
            throw (.exception ("Static symbol " ++ targetFilename.getD "None" ++ ":'" ++
              targetName ++ "' is already defined at " ++ placeText sym.loc ++ aliasLoc))
          else
            let rest ← resolveFileScopes mds syms aliases' ((targetFilename, targetName) :: defined)
            pure (sym' :: rest)

/-- `process_meta`. -/
def processMeta (mds : List Metadata) (symbols : List ReadSymbol) :
    Except Raised (List ReadSymbol) := do
  verifyLines mds symbols
  let aliases ← collectAliases mds []
  resolveFileScopes mds symbols aliases []

/-! ## Static definitions -/

/-- A static definition. -/
def ReadSymbol.isStaticDef (sym : ReadSymbol) : Bool :=
  sym.visibility = .visStatic && sym.kind = .symDef

/-- `target_sym_loc`. -/
def ReadSymbol.targetSymLoc (sym : ReadSymbol) : Option String × String :=
  (sym.targetFilename, sym.targetName)

/-- The keys of the static definitions. -/
def definedLocs (syms : List ReadSymbol) : List (Option String × String) :=
  (syms.filter ReadSymbol.isStaticDef).map ReadSymbol.targetSymLoc

/-- The loop keeps the keys of the static definitions apart from each other and
from those it has seen. -/
theorem resolveFileScopes_definedLocs {mds : List Metadata} {syms syms' : List ReadSymbol}
    {aliases : List Alias} {defined : List (Option String × String)}
    (h : resolveFileScopes mds syms aliases defined = .ok syms') :
    (definedLocs syms').Nodup ∧ ∀ loc ∈ definedLocs syms', loc ∉ defined := by
  induction syms generalizing aliases defined syms' with
  | nil =>
      cases aliases with
      | nil =>
          cases h
          exact ⟨.nil, fun _ h => nomatch h⟩
      | cons md aliases => cases h
  | cons sym syms induction =>
      rw [resolveFileScopes] at h
      split at h
      · next hvis =>
          obtain ⟨rest, hrest, h⟩ := bind_eq_ok_iff.mp h
          cases h
          have hskip : definedLocs (sym :: rest) = definedLocs rest := by
            simp [definedLocs, ReadSymbol.isStaticDef, hvis]
          rw [hskip]
          exact induction hrest
      · next hvis =>
          dsimp only at h
          split at h
          · cases h
          · obtain ⟨targetFilename, _, h⟩ := bind_eq_ok_iff.mp h
            split at h
            · next hkind =>
                obtain ⟨rest, hrest, h⟩ := bind_eq_ok_iff.mp h
                cases h
                rw [definedLocs, List.filter_cons_of_neg (by simp [ReadSymbol.isStaticDef, hkind])]
                exact induction hrest
            · next hkind =>
                split at h
                · cases h
                · next hnew =>
                    obtain ⟨rest, hrest, h⟩ := bind_eq_ok_iff.mp h
                    cases h
                    obtain ⟨hnodup, hapart⟩ := induction hrest
                    rw [definedLocs, List.filter_cons_of_pos (by simp_all [ReadSymbol.isStaticDef]),
                      List.map_cons, List.nodup_cons, List.forall_mem_cons]
                    refine ⟨⟨fun hmem => ?_, hnodup⟩, hnew, fun loc hloc hmem => ?_⟩
                    · exact hapart _ hmem List.mem_cons_self
                    · exact hapart loc hloc (List.mem_cons_of_mem _ hmem)

/-- No two static definitions have one target file name and one target name. -/
theorem processMeta_definedLocs_nodup {mds : List Metadata} {syms syms' : List ReadSymbol}
    (h : processMeta mds syms = .ok syms') : (definedLocs syms').Nodup := by
  obtain ⟨_, _, h⟩ := bind_eq_ok_iff.mp h
  obtain ⟨aliases, _, h⟩ := bind_eq_ok_iff.mp h
  exact (resolveFileScopes_definedLocs h).1

/-! ## The chains of parents -/

/-- A symbol that `read_patch` returns, with what `resolve` reads of
`elf_sym`. -/
structure PatchSym where
  symbol : Symbol
  stValue : Nat
  idx : Nat

/-- The attributes of a symbol in its group. -/
def ReadSymbol.info (group : List String) (sym : ReadSymbol) : SymInfo :=
  ⟨sym.kind, sym.visibility, sym.name, sym.loc, sym.targetName, sym.targetFilename, group⟩

/-- A symbol below its parent, which is one of those in front of it. -/
def ReadSymbol.link (group : List String) (front : List PatchSym) (sym : ReadSymbol) : Symbol :=
  match sym.parent.bind fun i => front[i]? with
  | some parent => .nested (sym.info group) parent.symbol
  | none => .top (sym.info group)

/-- The symbols with their parents, from the first on. -/
def linkSymbols (group : List String) : List ReadSymbol → List PatchSym → List PatchSym
  | [], front => front
  | sym :: syms, front =>
      linkSymbols group syms (front ++ [⟨sym.link group front, sym.stValue, sym.idx⟩])

end Nsb
