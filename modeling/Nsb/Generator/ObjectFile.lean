import Nsb.Generator.DiKey
import Nsb.Generator.Resolve

/-!
# Object files

What `static_symbol.py` reads of the object files that a patch was linked from:
`DebugInfoReloc`, `ObjectFile.get_di_key` and `ObjectFile.get_relocs`.

An object file has a section for every function.  Which function a section belongs to
is not told by its name: the relocations of the debug information that refer to the
section patch addresses inside of DIEs, and those DIEs must have one key between them.
The references in the code of a function come out as names, for global symbols, and as
keys, for local ones.

The index of a section or of a symbol is that of an entry of its table.  The library
reads what is behind the table for another one, which is an `indexError` here.
-/

namespace Nsb

/-! ## The files -/

/-- The numbers of the relocation types. -/
def RelocType.ofRaw : Nat → Option RelocType
  | 2 => some .pc32
  | 4 => some .plt32
  | 9 => some .gotpcrel
  | 24 => some .pc64
  | 25 => some .gotoff64
  | 42 => some .rexGotpcrelx
  | _ => none

/-- A relocation as it stands in its section. -/
structure RelaEntry where
  rOffset : Nat
  rInfoType : Nat
  rInfoSym : Nat
deriving DecidableEq, Repr

/-- A section of an object file.  `relocs` and `symbols` are what is in a relocation
section and in a symbol table. -/
structure ObjSection where
  name : String
  shLink : Nat
  shInfo : Nat
  place : Section
  relocs : List RelaEntry
  symbols : Option (List SymtabEntry)

/-- The attribute `DW_AT_high_pc`, by the class of its form. -/
inductive HighPc where
  | constant (n : Nat)
  | address (a : Nat)
  | otherForm (form : String)
deriving DecidableEq, Repr

/-- An object file.  `highPc` is the attribute of the DIE at an offset. -/
structure ObjElf where
  cus : Option (List CU)
  highPc : Nat → Option HighPc
  sections : List ObjSection

/-- `get_section_by_name`.  The last section of a name is the one in the table. -/
def ObjElf.getSectionByName (elf : ObjElf) (name : String) : Option ObjSection :=
  (elf.sections.filter fun sec => sec.name = name).getLast?

/-- `get_section`. -/
def ObjElf.getSection (elf : ObjElf) (n : Nat) : Except Raised ObjSection :=
  match elf.sections[n]? with
  | some sec => .ok sec
  | none => .error .indexError

/-! ## `DebugInfoReloc` -/

/-- `DebugInfoReloc`.  `offsets` are the entries of the table of lists, in the order in
which they are appended. -/
structure DebugInfoReloc where
  symSecIdx : Nat
  symtab : Option (List SymtabEntry)
  offsets : List (StShndx × Nat)

/-- `symtab.get_symbol`. -/
def DebugInfoReloc.getSymbol (symtab : Option (List SymtabEntry)) (n : Nat) :
    Except Raised SymtabEntry :=
  match symtab with
  | none => .error .attributeError
  | some st =>
      match st[n]? with
      | some sym => .ok sym
      | none => .error .indexError

/-- `DebugInfoReloc.__init__`. -/
def DebugInfoReloc.init (elf : ObjElf) : Except Raised DebugInfoReloc :=
  match elf.getSectionByName ".rela.debug_info" with
  | none => .error (.exception "No .rela.debug_info section")
  | some sec => do
      let symtab := (← elf.getSection sec.shLink).symbols
      let offsets ← sec.relocs.mapM fun rel => do
        let sym ← DebugInfoReloc.getSymbol symtab rel.rInfoSym
        pure (sym.stShndx, rel.rOffset)
      pure ⟨sec.shLink, symtab, offsets⟩

/-- `get_offsets`. -/
def DebugInfoReloc.getOffsets (reloc : DebugInfoReloc) (secIdx : Nat) : List Nat :=
  (reloc.offsets.filter fun e => e.1 = .index secIdx).map Prod.snd

/-! ## `ObjectFile` -/

/-- `ObjectFile`. -/
structure ObjectFile where
  elf : ObjElf
  di : DebugInfo
  diReloc : DebugInfoReloc

/-- `ObjectFile.__init__`. -/
def ObjectFile.init (elf : ObjElf) : Except Raised ObjectFile := do
  let di ← DebugInfo.init elf.cus
  let diReloc ← DebugInfoReloc.init elf
  pure ⟨elf, di, diReloc⟩

/-- The key of the DIE at a position. -/
def ObjectFile.keyAt (obj : ObjectFile) (offset : Nat) : Except Raised (Option DiKey) := do
  match ← obj.di.getDioByPos offset with
  | none => throw .attributeError
  | some dio => obj.di.getKey dio

/-- `get_di_key`.  `filter` drops an empty key like `None`. -/
def ObjectFile.getDiKey (obj : ObjectFile) (secIdx : Nat) : Except Raised DiKey := do
  let diKeys ← (obj.diReloc.getOffsets secIdx).mapM obj.keyAt
  match (diKeys.filterMap fun key => key.filter (· ≠ [])).dedup with
  | [key] => pure key
  | _ => throw (.exception ("Got " ++ toString diKeys.length ++ " DIE keys for section " ++
      toString secIdx))

/-- `should_resolve`. -/
def ObjSection.shouldResolve (sec : ObjSection) : Bool :=
  !(".rodata".toList.isPrefixOf sec.name.toList) && !(".text".toList.isPrefixOf sec.name.toList)

/-- `check_interposable`. -/
def checkInterposable (moduleSymNames : List String) (relType : RelocType) (sym : SymtabEntry) :
    Except Raised Unit :=
  if relType.isPic then .ok ()
  else do
    pyAssert (sym.bind = .stbGlobal)
    pyAssert (sym.name ≠ "")
    pyAssert (sym.name ∉ moduleSymNames)

/-- The key of a reference: the name of a global symbol, or the key of a DIE. -/
inductive RelKey where
  | name (s : String)
  | die (key : DiKey)
deriving DecidableEq, Repr

/-- `target_sec`, with its index. -/
def ObjectFile.targetSec (obj : ObjectFile) (sym : SymtabEntry) :
    Except Raised (Option (Nat × ObjSection)) :=
  match sym.stShndx with
  | .index n => do pure (some (n, ← obj.elf.getSection n))
  | _ => .ok none

/-- The body of the inner loop of `get_relocs`: what is appended for a relocation. -/
def ObjectFile.readRela (obj : ObjectFile) (moduleSymNames : List String) (rel : RelaEntry) :
    Except Raised (Reloc RelKey) := do
  let some relType := RelocType.ofRaw rel.rInfoType | throw .keyError
  let sym ← DebugInfoReloc.getSymbol obj.diReloc.symtab rel.rInfoSym
  checkInterposable moduleSymNames relType sym
  let targetSec ← obj.targetSec sym
  match sym.bind with
  | .stbGlobal => pure ⟨relType, rel.rOffset, some (.name sym.name)⟩
  | .stbLocal =>
      match targetSec with
      | none => throw .attributeError
      | some (n, sec) =>
          if !sec.shouldResolve then pure ⟨relType, rel.rOffset, none⟩
          else do pure ⟨relType, rel.rOffset, some (.die (← obj.getDiKey n))⟩
  | .other _ => throw .assertionError

/-- An entry of the result of `get_relocs`. -/
structure FuncRelocs where
  funcDiKey : DiKey
  textSec : ObjSection
  relocs : List (Reloc RelKey)

/-- `result[func_di_key] = ..`. -/
def setFuncRelocs (result : List FuncRelocs) (func : FuncRelocs) : List FuncRelocs :=
  result.filter (fun f => f.funcDiKey ≠ func.funcDiKey) ++ [func]

/-- `sec.name.startswith('.rela.text')`. -/
def ObjSection.isRelaText (sec : ObjSection) : Bool :=
  ".rela.text".toList.isPrefixOf sec.name.toList

/-- The outer loop of `get_relocs`. -/
def ObjectFile.relocsLoop (obj : ObjectFile) (moduleSymNames : List String) :
    List ObjSection → List FuncRelocs → Except Raised (List FuncRelocs)
  | [], result => .ok result
  | sec :: secs, result =>
      if !sec.isRelaText then obj.relocsLoop moduleSymNames secs result
      else if sec.shLink ≠ obj.diReloc.symSecIdx then throw (.exception "Symbol table mismatch")
      else do
        let textSec ← obj.elf.getSection sec.shInfo
        let funcDiKey ← obj.getDiKey sec.shInfo
        let relocs ← sec.relocs.mapM (obj.readRela moduleSymNames)
        obj.relocsLoop moduleSymNames secs (setFuncRelocs result ⟨funcDiKey, textSec, relocs⟩)

/-- `get_relocs` with `check_interposable`. -/
def ObjectFile.getRelocs (obj : ObjectFile) (moduleSymNames : List String) :
    Except Raised (List FuncRelocs) :=
  obj.relocsLoop moduleSymNames obj.elf.sections []

/-! ## What a reference is read as -/

/-- The key of a reference to a symbol.  A local symbol stands for the section it is in. -/
inductive ObjectFile.Refers (obj : ObjectFile) (sym : SymtabEntry) : Option RelKey → Prop where
  | named (hbind : sym.bind = .stbGlobal) : Refers obj sym (some (.name sym.name))
  | code {n : Nat} {sec : ObjSection} (hbind : sym.bind = .stbLocal)
      (hsec : sym.stShndx = .index n ∧ obj.elf.sections[n]? = some sec)
      (hcode : sec.shouldResolve = false) : Refers obj sym none
  | entity {n : Nat} {sec : ObjSection} {key : DiKey} (hbind : sym.bind = .stbLocal)
      (hsec : sym.stShndx = .index n ∧ obj.elf.sections[n]? = some sec)
      (hdata : sec.shouldResolve = true) (hkey : obj.getDiKey n = .ok key) :
      Refers obj sym (some (.die key))

/-- What is appended for a relocation. -/
structure ObjectFile.Reads (obj : ObjectFile) (moduleSymNames : List String) (rel : RelaEntry)
    (r : Reloc RelKey) : Prop where
  type_eq : RelocType.ofRaw rel.rInfoType = some r.relType
  offset_eq : r.relOffset = rel.rOffset
  refers : ∃ sym, DebugInfoReloc.getSymbol obj.diReloc.symtab rel.rInfoSym = .ok sym ∧
    obj.Refers sym r.key ∧ (r.relType.isPic = false →
      sym.bind = .stbGlobal ∧ sym.name ≠ "" ∧ sym.name ∉ moduleSymNames)

theorem checkInterposable_eq_ok {moduleSymNames : List String} {relType : RelocType}
    {sym : SymtabEntry} {u : Unit} (h : checkInterposable moduleSymNames relType sym = .ok u)
    (hpic : relType.isPic = false) :
    sym.bind = .stbGlobal ∧ sym.name ≠ "" ∧ sym.name ∉ moduleSymNames := by
  rw [checkInterposable, hpic, if_neg Bool.false_ne_true] at h
  obtain ⟨_, hbind, h⟩ := bind_eq_ok_iff.mp h
  obtain ⟨_, hname, h⟩ := bind_eq_ok_iff.mp h
  exact ⟨of_decide_eq_true (pyAssert_eq_ok_iff.mp hbind),
    of_decide_eq_true (pyAssert_eq_ok_iff.mp hname), of_decide_eq_true (pyAssert_eq_ok_iff.mp h)⟩

theorem ObjElf.getSection_eq_ok_iff {elf : ObjElf} {n : Nat} {sec : ObjSection} :
    elf.getSection n = .ok sec ↔ elf.sections[n]? = some sec := by
  rw [ObjElf.getSection]
  cases elf.sections[n]? <;> simp

theorem ObjectFile.targetSec_eq_some {obj : ObjectFile} {sym : SymtabEntry} {n : Nat}
    {sec : ObjSection} (h : obj.targetSec sym = .ok (some (n, sec))) :
    sym.stShndx = .index n ∧ obj.elf.sections[n]? = some sec := by
  rw [ObjectFile.targetSec] at h
  split at h
  next _ hidx =>
    obtain ⟨sec', hget, h⟩ := bind_eq_ok_iff.mp h
    cases h
    exact ⟨hidx, ObjElf.getSection_eq_ok_iff.mp hget⟩
  next => cases h

theorem ObjectFile.readRela_reads {obj : ObjectFile} {moduleSymNames : List String}
    {rel : RelaEntry} {r : Reloc RelKey} (h : obj.readRela moduleSymNames rel = .ok r) :
    obj.Reads moduleSymNames rel r := by
  rw [ObjectFile.readRela] at h
  cases htype : RelocType.ofRaw rel.rInfoType with
  | none =>
      rw [htype] at h
      cases h
  | some relType =>
      rw [htype] at h
      obtain ⟨sym, hsym, h⟩ := bind_eq_ok_iff.mp h
      obtain ⟨_, hcheck, h⟩ := bind_eq_ok_iff.mp h
      obtain ⟨targetSec, hsec, h⟩ := bind_eq_ok_iff.mp h
      have hinter := checkInterposable_eq_ok hcheck
      cases hbind : sym.bind with
      | stbGlobal =>
          rw [hbind] at h
          cases h
          exact ⟨htype, rfl, sym, hsym, .named hbind, hinter⟩
      | stbLocal =>
          rw [hbind] at h
          cases targetSec with
          | none => cases h
          | some target =>
              obtain ⟨n, sec⟩ := target
              have hplace := ObjectFile.targetSec_eq_some hsec
              dsimp only at h
              split at h
              next hcode =>
                cases h
                exact ⟨htype, rfl, sym, hsym, .code hbind hplace (by simpa using hcode), hinter⟩
              next hdata =>
                obtain ⟨key, hkey, h⟩ := bind_eq_ok_iff.mp h
                cases h
                exact ⟨htype, rfl, sym, hsym, .entity hbind hplace (by simpa using hdata) hkey,
                  hinter⟩
      | other code =>
          rw [hbind] at h
          cases h

/-! ## What the result holds -/

/-- An entry is read of a section. -/
structure ObjectFile.ReadOf (obj : ObjectFile) (moduleSymNames : List String) (sec : ObjSection)
    (func : FuncRelocs) : Prop where
  relaText : sec.isRelaText = true
  link : sec.shLink = obj.diReloc.symSecIdx
  textSec : obj.elf.sections[sec.shInfo]? = some func.textSec
  key : obj.getDiKey sec.shInfo = .ok func.funcDiKey
  relocs : List.Forall₂ (obj.Reads moduleSymNames) sec.relocs func.relocs

/-- The entries are those of the last section of each key. -/
structure ObjectFile.ReadsSections (obj : ObjectFile) (moduleSymNames : List String)
    (secs : List ObjSection) (result : List FuncRelocs) : Prop where
  last : ∀ func ∈ result, ∃ front sec back, secs = front ++ sec :: back ∧
    obj.ReadOf moduleSymNames sec func ∧ ∀ sec' ∈ back, sec'.isRelaText = true →
      obj.getDiKey sec'.shInfo ≠ .ok func.funcDiKey
  every : ∀ sec ∈ secs, sec.isRelaText = true →
    ∃ func ∈ result, obj.getDiKey sec.shInfo = .ok func.funcDiKey

theorem ObjectFile.ReadsSections.skip {obj : ObjectFile} {moduleSymNames : List String}
    {secs : List ObjSection} {result : List FuncRelocs}
    (h : obj.ReadsSections moduleSymNames secs result) {sec : ObjSection}
    (hsec : sec.isRelaText = false) : obj.ReadsSections moduleSymNames (secs ++ [sec]) result := by
  have hno : sec.isRelaText ≠ true := by simp [hsec]
  constructor
  · intro func hfunc
    obtain ⟨front, sec', back, rfl, hread, hback⟩ := h.last func hfunc
    refine ⟨front, sec', back ++ [sec], by simp, hread, ?_⟩
    rw [List.forall_mem_append, List.forall_mem_singleton]
    exact ⟨hback, fun htext => absurd htext hno⟩
  · rw [List.forall_mem_append, List.forall_mem_singleton]
    exact ⟨h.every, fun htext => absurd htext hno⟩

theorem ObjectFile.ReadsSections.read {obj : ObjectFile} {moduleSymNames : List String}
    {secs : List ObjSection} {result : List FuncRelocs}
    (h : obj.ReadsSections moduleSymNames secs result) {sec : ObjSection} {func : FuncRelocs}
    (hread : obj.ReadOf moduleSymNames sec func) :
    obj.ReadsSections moduleSymNames (secs ++ [sec]) (setFuncRelocs result func) := by
  constructor
  · rw [setFuncRelocs, List.forall_mem_append, List.forall_mem_singleton]
    refine ⟨fun f hf => ?_, secs, sec, [], rfl, hread, List.forall_mem_nil _⟩
    obtain ⟨hf, hne⟩ := List.mem_filter.mp hf
    obtain ⟨front, sec', back, rfl, hread', hback⟩ := h.last f hf
    refine ⟨front, sec', back ++ [sec], by simp, hread', ?_⟩
    rw [List.forall_mem_append, List.forall_mem_singleton]
    refine ⟨hback, fun _ heq => of_decide_eq_true hne ?_⟩
    exact (Except.ok.inj (hread.key.symm.trans heq)).symm
  · rw [List.forall_mem_append, List.forall_mem_singleton]
    refine ⟨fun sec' hsec' htext => ?_, fun _ => ⟨func, by simp [setFuncRelocs], hread.key⟩⟩
    obtain ⟨f, hf, hkey⟩ := h.every sec' hsec' htext
    by_cases heq : f.funcDiKey = func.funcDiKey
    · exact ⟨func, by simp [setFuncRelocs], heq ▸ hkey⟩
    · refine ⟨f, ?_, hkey⟩
      simp [setFuncRelocs, hf, heq]

theorem ObjectFile.relocsLoop_reads {obj : ObjectFile} {moduleSymNames : List String}
    {front secs : List ObjSection} {result table : List FuncRelocs}
    (hfront : obj.ReadsSections moduleSymNames front result)
    (h : obj.relocsLoop moduleSymNames secs result = .ok table) :
    obj.ReadsSections moduleSymNames (front ++ secs) table := by
  induction secs generalizing front result with
  | nil =>
      cases h
      rwa [List.append_nil]
  | cons sec secs induction =>
      rw [List.append_cons]
      rw [ObjectFile.relocsLoop] at h
      split at h
      next htext => exact induction (hfront.skip (by simpa using htext)) h
      next htext =>
        split at h
        next => cases h
        next hlink =>
          obtain ⟨textSec, hsec, h⟩ := bind_eq_ok_iff.mp h
          obtain ⟨key, hkey, h⟩ := bind_eq_ok_iff.mp h
          obtain ⟨relocs, hrelocs, h⟩ := bind_eq_ok_iff.mp h
          have hread : obj.ReadOf moduleSymNames sec ⟨key, textSec, relocs⟩ :=
            { relaText := by simpa using htext
              link := not_not.mp hlink
              textSec := ObjElf.getSection_eq_ok_iff.mp hsec
              key := hkey
              relocs := (mapM_eq_ok hrelocs).imp fun _ _ => ObjectFile.readRela_reads }
          exact induction (hfront.read hread) h

/-- `get_relocs` has an entry for the last section of each key, with what its
relocations are read as. -/
theorem ObjectFile.getRelocs_reads {obj : ObjectFile} {moduleSymNames : List String}
    {table : List FuncRelocs} (h : obj.getRelocs moduleSymNames = .ok table) :
    obj.ReadsSections moduleSymNames obj.elf.sections table :=
  ObjectFile.relocsLoop_reads ⟨List.forall_mem_nil _, List.forall_mem_nil _⟩ h

end Nsb
