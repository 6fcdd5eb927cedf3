import Nsb.Generator.ReadPatch
import Nsb.Generator.StaticBinding

/-!
# The jumps of a generated patch

`resolve` of `patch_symbol.py`: the symbols of a patch are resolved in the
target one after the other, and every definition that is found becomes a jump
from the function of the target to that of the patch.

Two definitions of one function would redirect it twice.  `resolve_file_scopes`
looks for them before anything is resolved, by the target file name and the
target name of the static definitions.  A function of the target has more
designations than that one: a name that is unique in the symbol table, and the
names of global and module symbols.  `Symbol.addrIn` says what each designation
stands for.
-/

namespace Nsb

open Preorder (Entry EntryTree)

/-! ## The target -/

/-- What `resolve` reads of a target. -/
structure TargetElf where
  cus : Option (List CU)
  symtab : Option (List SymtabEntry)
  dynsym : Option (List SymtabEntry)

/-- The target as the symbols see it. -/
def TargetElf.target (t : TargetElf) : Target :=
  ⟨t.cus, t.symtab.map (List.map SymtabEntry.elfSym), t.dynsym.map (List.map SymtabEntry.elfSym)⟩

/-- `DefSymTab.__init__`. -/
def TargetElf.defSymTab (t : TargetElf) : Except Raised (List SymtabEntry) :=
  match t.symtab with
  | none => .error (.exception "No symbol table")
  | some st => .ok (st.filter fun s =>
      s.isObjectOrFunc && s.stShndx ≠ .shnUndef && s.stValue ≠ 0)

/-- `DefSymTab.get_size`.  The message of several sizes has a malformed
format. -/
def getSize (st : List SymtabEntry) (addr : Nat) : Except Raised Nat :=
  match ((st.filter fun s => s.stValue = addr).map SymtabEntry.stSize).dedup with
  | [] => .error .keyError
  | [size] => .ok size
  | _ => .error .valueError

/-- `DefSymTab.get_sec_idx`. -/
def getSecIdx (st : List SymtabEntry) (addr : Nat) : Except Raised StShndx :=
  match ((st.filter fun s => s.stValue = addr).map SymtabEntry.stShndx).dedup with
  | [] => .error .keyError
  | [shndx] => .ok shndx
  | _ => .error (.exception
      ("Multiple section indices for symbol at address " ++ toString addr))

/-! ## The message -/

/-- `FuncJump` of the message. -/
structure BinPatch.FuncJump where
  name : String
  funcValue : Nat
  funcSize : Nat
  patchValue : Nat
  shndx : Nat
deriving DecidableEq, Repr

/-- `MarkedSym` of the message. -/
structure BinPatch.MarkedSym where
  idx : Nat
  addr : Nat
deriving DecidableEq, Repr

/-- `BinPatch`, the fields that `resolve` adds to. -/
structure BinPatch where
  funcJumps : List BinPatch.FuncJump
  manualSymbols : List BinPatch.MarkedSym
  globalSymbols : List BinPatch.MarkedSym
deriving DecidableEq, Repr

/-- A number that is stored in a field of so many bits. -/
def protoField (bits n : Nat) : Except Raised Nat :=
  if n < 2 ^ bits then .ok n else .error .valueError

/-- A section index that is stored in a field. -/
def StShndx.protoField : StShndx → Except Raised Nat
  | .index n => Nsb.protoField 32 n
  | _ => .error .typeError

/-- The jump of a definition. -/
def PatchSym.funcJump (st : List SymtabEntry) (sym : PatchSym) (addr : Nat) :
    Except Raised BinPatch.FuncJump := do
  let size ← getSize st addr
  let shndx ← getSecIdx st addr
  let funcValue ← protoField 64 addr
  let funcSize ← protoField 32 size
  let secIdx ← shndx.protoField
  let patchValue ← protoField 32 sym.stValue
  pure ⟨sym.symbol.info.targetName, funcValue, funcSize, patchValue, secIdx⟩

/-- The entry of a reference. -/
def PatchSym.markedSym (sym : PatchSym) (addr : Nat) : Except Raised BinPatch.MarkedSym := do
  let addr ← protoField 63 addr
  let idx ← protoField 31 sym.idx
  pure ⟨idx, addr⟩

/-- The body of the loop of `resolve`, after the symbol has been resolved.  Only
external symbols are interposable. -/
def BinPatch.addSym (st : List SymtabEntry) (bp : BinPatch) (sym : PatchSym)
    (addr : Option Nat) : Except Raised BinPatch :=
  match sym.symbol.info.kind, addr with
  | .symDef, none => .ok bp
  | .symDef, some addr => do
      let fj ← sym.funcJump st addr
      pure { bp with funcJumps := bp.funcJumps ++ [fj] }
  | .symRef, none =>
      if sym.symbol.info.visibility ≠ .visExternal then
        .error (.exception (sym.symbol.info.str ++ " is not found in target"))
      else .ok bp
  | .symRef, some addr => do
      let ms ← sym.markedSym addr
      if sym.symbol.info.visibility = .visExternal then
        pure { bp with globalSymbols := bp.globalSymbols ++ [ms] }
      else pure { bp with manualSymbols := bp.manualSymbols ++ [ms] }

/-- The loop of `resolve`. -/
def resolveSyms (t : Target) (st : List SymtabEntry) :
    List PatchSym → DioMap → BinPatch → Except Raised BinPatch
  | [], _, bp => .ok bp
  | sym :: syms, m, bp => do
      let (addr, m') ← sym.symbol.resolve t m
      let bp' ← bp.addSym st sym addr
      resolveSyms t st syms m' bp'

/-- `resolve`. -/
def PatchElf.resolve (t : TargetElf) (p : PatchElf) : Except Raised BinPatch := do
  let patchSyms ← p.readPatch
  let st ← t.defSymTab
  resolveSyms t.target st patchSyms .empty ⟨[], [], []⟩

/-! ## What a symbol stands for -/

/-- The element of a list that has no other. -/
def only {α : Type} : List α → Option α
  | [x] => some x
  | _ => none

theorem only_eq_some_iff {α : Type} {l : List α} {x : α} : only l = some x ↔ l = [x] := by
  cases l with
  | nil => simp [only]
  | cons y l => cases l <;> simp [only]

/-- The objects of a target in the order of `iter_dios`. -/
def Target.dios (t : Target) : List Dio :=
  match DebugInfo.init t.cus with
  | .ok di => di.cus.flatMap fun cu => cu.nodes.map cu.dio
  | .error _ => []

/-- The first object of a target at an address, among those that a group of
symbols may name. -/
def Target.firstAt (t : Target) (group : List String) (addr : Nat) : Option Dio :=
  t.dios.find? (Dio.isAt (group.insertionSort (· ≤ ·)) addr)

/-- The object a static symbol stands for: the only child of the target name of
the object of its parent.  Without a parent it is that of the last compile unit
of the target file, and without a target file the object at the address of the
only entry of the symbol table. -/
def Symbol.targetDio (t : Target) : Symbol → Option Dio
  | .nested info parent => do
      let parentDio ← parent.targetDio t
      only (named info.targetName parentDio.children)
  | .top info =>
      match info.targetFile with
      | some filename => do
          let cu ← (unitsNamed filename (t.cus.getD [])).getLast?
          only (named info.targetName cu.topDio.children)
      | none => do
          let sym ← only (getSymbolByName (t.symtab.getD []) info.targetName)
          t.firstAt info.groupNames sym.stValue

/-- The global entries of a name. -/
def Target.globalSyms (t : Target) (name : String) : List ElfSym :=
  (getSymbolByName (t.symtab.getD []) name).filter fun s =>
    !s.shnUndef && s.bind == .stbGlobal && s.visibility == .stvDefault

/-- The addresses of a target that no module symbol has. -/
def Target.masked (t : Target) : List Nat :=
  match DebugInfo.init t.cus with
  | .ok di =>
      match t.maskedAddrs di t.dios with
      | .ok addrs => addrs
      | .error _ => []
  | .error _ => []

/-- The entries of a name that are not masked. -/
def Target.moduleSyms (t : Target) (name : String) : List ElfSym :=
  (getSymbolByName (t.symtab.getD []) name).filter fun s => s.stValue ∉ t.masked

/-- The address in a target that a symbol of a patch stands for. -/
def Symbol.addrIn (t : Target) (sym : Symbol) : Option Nat :=
  match sym.info.visibility with
  | .visStatic => (sym.targetDio t).bind fun dio => dio.die.addr
  | .visExternal => (only (t.globalSyms sym.info.name)).map ElfSym.stValue
  | _ => (only (t.moduleSyms sym.info.name)).map ElfSym.stValue

/-- A function that the patch defines. -/
def PatchSym.isDef (sym : PatchSym) : Bool := sym.symbol.info.kind = .symDef

/-- Two static symbols of one target file name and one target name. -/
def SymInfo.SameStatic (info info' : SymInfo) : Prop :=
  info.visibility = .visStatic ∧ info'.visibility = .visStatic ∧
    info.targetFilename = info'.targetFilename ∧ info.targetName = info'.targetName

/-- No two functions that a patch defines stand for one address of the target,
unless they are static with one target file name and one target name. -/
def PatchElf.NamesApart (t : TargetElf) (p : PatchElf) : Prop :=
  ∀ syms, p.readPatch = .ok syms → syms.Pairwise fun s s' => s.isDef → s'.isDef →
    ¬ s.symbol.info.SameStatic s'.symbol.info →
      ∀ addr, s.symbol.addrIn t.target = some addr → s'.symbol.addrIn t.target ≠ some addr

/-! ## The map of `get_dio` -/

/-- What the map holds is the first object at the address, for one group. -/
def DioMap.Exact (t : Target) (group : List String) (m : DioMap) : Prop :=
  ∀ addr, m addr = none ∨ m addr = some (t.firstAt group addr)

theorem DioMap.Exact.eq_firstAt {t : Target} {group : List String} {m : DioMap} {addr : Nat}
    {r : Option Dio} (hm : m.Exact t group) (h : m addr = some r) : r = t.firstAt group addr := by
  rcases hm addr with hnone | hsome
  · rw [h] at hnone
    cases hnone
  · rw [h] at hsome
    exact Option.some.inj hsome

theorem Target.dios_eq {t : Target} {di : DebugInfo} {dios : List Dio}
    (hdi : DebugInfo.init t.cus = .ok di) (h : di.iterDios = .ok dios) : t.dios = dios := by
  rw [DebugInfo.iterDios_eq] at h
  cases h
  rw [Target.dios, hdi]

/-- `get_dio` finds the first object at the address. -/
theorem Target.getDio_exact {t : Target} {addr : Nat} {group : List String} {m m' : DioMap}
    {r : Option Dio} (hm : m.Exact t group) (h : t.getDio addr group m = .ok (r, m')) :
    r = t.firstAt group addr ∧ m'.Exact t group := by
  rw [Target.getDio] at h
  split at h
  · next dio hdio =>
      cases h
      exact ⟨hm.eq_firstAt hdio, hm⟩
  · obtain ⟨di, hdi, h⟩ := bind_eq_ok_iff.mp h
    obtain ⟨dios, hdios, h⟩ := bind_eq_ok_iff.mp h
    obtain ⟨m'', hfill, h⟩ := bind_eq_ok_iff.mp h
    have heq (a : Nat) : m'' a = (m a).or ((t.firstAt group a).map some) := by
      rw [DebugInfo.fillDioMap_eq hfill, Target.firstAt, Target.dios_eq hdi hdios]
    have hfilled : m''.Exact t group := by
      intro a
      rw [heq]
      rcases hm a with hnone | hsome
      · rw [hnone, Option.none_or]
        cases t.firstAt group a with
        | none => exact .inl rfl
        | some dio => exact .inr rfl
      · exact .inr (by rw [hsome]; rfl)
    split at h
    · next dio hdio =>
        cases h
        exact ⟨hfilled.eq_firstAt hdio, hfilled⟩
    · next hnone =>
        cases h
        have hfirst : t.firstAt group addr = none := by
          rw [heq, Option.or_eq_none_iff] at hnone
          exact Option.map_eq_none_iff.mp hnone.2
        refine ⟨hfirst.symm, fun a => ?_⟩
        by_cases ha : a = addr
        · subst ha
          exact .inr (by rw [Function.update_self, hfirst])
        · rw [Function.update_of_ne ha]
          exact hfilled a

/-! ## What is resolved -/

/-- All symbols of a chain have one group. -/
def Symbol.InGroup (group : List String) : Symbol → Prop
  | .top info => info.groupNames = group
  | .nested info parent => info.groupNames = group ∧ parent.InGroup group

/-- The object of a static symbol without a parent is the one it stands for. -/
theorem SymInfo.topGetDio_targetDio {t : Target} {info : SymInfo} {m m' : DioMap} {dio : Dio}
    (hm : m.Exact t info.groupNames) (h : info.topGetDio t m = .ok (some dio, m')) :
    (Symbol.top info).targetDio t = some dio ∧ m'.Exact t info.groupNames := by
  rw [Symbol.targetDio]
  cases hfile : info.targetFile with
  | some filename =>
      obtain ⟨rfl, cus, earlier, cu, hfound⟩ := (SymInfo.topGetDio_file_iff hfile).mp h
      have hlast : (unitsNamed filename (t.cus.getD [])).getLast? = some cu := by
        rw [hfound.target, Option.getD_some, hfound.units, List.getLast?_concat]
      simp only [hlast]
      exact ⟨only_eq_some_iff.mpr hfound.only, hm⟩
  | none =>
      rw [SymInfo.topGetDio, hfile] at h
      obtain ⟨st, hst, h⟩ := bind_eq_ok_iff.mp h
      rw [Target.getSymtab_eq_ok hst, Option.getD_some]
      split at h
      · next sym hsym =>
          obtain ⟨hr, hm'⟩ := Target.getDio_exact hm h
          simp only [hsym]
          exact ⟨hr.symm, hm'⟩
      · cases h

/-- The object of a static symbol is the one it stands for. -/
theorem Symbol.getDio_targetDio {t : Target} {sym : Symbol} {group : List String}
    {m m' : DioMap} {dio : Dio} (hs : m.Sound) (hm : m.Exact t group) (hg : sym.InGroup group)
    (h : sym.getDio t m = .ok (dio, m')) :
    sym.targetDio t = some dio ∧ m'.Exact t group := by
  induction sym generalizing dio with
  | top info =>
      obtain ⟨_, hfound, _⟩ := Symbol.getDio_top_iff.mp h
      have hgroup : info.groupNames = group := hg
      subst hgroup
      exact SymInfo.topGetDio_targetDio hm hfound
  | nested info parent induction =>
      obtain ⟨p, hp, hlookup⟩ := Symbol.getDio_nested h
      obtain ⟨hparent, hm'⟩ := induction hg.2 hp
      have hvalid := (Symbol.getDio_sound hs hp).1
      obtain ⟨_, _, honly⟩ := (SymInfo.lookupIn_eq_some_iff hvalid).mp hlookup
      rw [Symbol.targetDio, hparent]
      exact ⟨only_eq_some_iff.mpr honly, hm'⟩

theorem SymInfo.externalResolve_eq {t : Target} {info : SymInfo} {r : Option Nat}
    (h : info.externalResolve t = .ok r) :
    r = (only (t.globalSyms info.name)).map ElfSym.stValue := by
  rw [SymInfo.externalResolve] at h
  obtain ⟨st, hst, h⟩ := bind_eq_ok_iff.mp h
  rw [Target.globalSyms, Target.getSymtab_eq_ok hst, Option.getD_some]
  dsimp only at h
  split at h
  · next heq =>
      cases h
      rw [heq]
      rfl
  · next heq =>
      cases h
      rw [heq]
      rfl
  · cases h

theorem getSym_eq {st : List ElfSym} {masked : List Nat} {name : String} {r : Option ElfSym}
    (h : getSym st masked name = .ok r) :
    r = only ((getSymbolByName st name).filter fun s => s.stValue ∉ masked) := by
  rw [getSym] at h
  split at h
  · cases h
  · split at h
    · next heq =>
        cases h
        rw [heq]
        rfl
    · next heq =>
        cases h
        rw [heq]
        rfl
    · cases h

theorem SymInfo.moduleResolve_eq {t : Target} {info : SymInfo} {r : Option Nat}
    (h : info.moduleResolve t = .ok r) :
    r = (only (t.moduleSyms info.name)).map ElfSym.stValue := by
  rw [SymInfo.moduleResolve] at h
  obtain ⟨st, hst, h⟩ := bind_eq_ok_iff.mp h
  obtain ⟨di, hdi, h⟩ := bind_eq_ok_iff.mp h
  obtain ⟨dios, hdios, h⟩ := bind_eq_ok_iff.mp h
  obtain ⟨addrs, haddrs, h⟩ := bind_eq_ok_iff.mp h
  obtain ⟨sym, hsym, h⟩ := bind_eq_ok_iff.mp h
  cases h
  have hmasked : t.masked = addrs := by
    rw [Target.masked, hdi]
    dsimp only
    rw [Target.dios_eq hdi hdios, haddrs]
  rw [Target.moduleSyms, Target.getSymtab_eq_ok hst, Option.getD_some, hmasked, getSym_eq hsym]

/-- A symbol that is resolved gets the address it stands for. -/
theorem Symbol.resolve_addrIn {t : Target} {sym : Symbol} {group : List String}
    {m m' : DioMap} {r : Option Nat} (hs : m.Sound) (hm : m.Exact t group)
    (hg : sym.InGroup group) (h : sym.resolve t m = .ok (r, m')) :
    r = sym.addrIn t ∧ m'.Exact t group := by
  -- the three kinds of module symbols are resolved alike
  have hmodule (h : (do pure (← sym.info.moduleResolve t, m)) = Except.ok (r, m')) :
      r = (only (t.moduleSyms sym.info.name)).map ElfSym.stValue ∧ m'.Exact t group := by
    obtain ⟨a, ha, h⟩ := bind_eq_ok_iff.mp h
    cases h
    exact ⟨SymInfo.moduleResolve_eq ha, hm⟩
  rw [Symbol.resolve] at h
  rw [Symbol.addrIn]
  cases hvis : sym.info.visibility with
  | visStatic =>
      rw [hvis] at h
      obtain ⟨dio, di, hdio, _, haddr⟩ := Symbol.staticResolve_eq_ok_iff.mp h
      obtain ⟨htarget, hm'⟩ := Symbol.getDio_targetDio hs hm hg hdio
      rw [htarget]
      exact ⟨DebugInfo.eq_addr_of_getAddr haddr, hm'⟩
  | visExternal =>
      rw [hvis] at h
      obtain ⟨a, ha, h⟩ := bind_eq_ok_iff.mp h
      cases h
      exact ⟨SymInfo.externalResolve_eq ha, hm⟩
  | visInternal =>
      rw [hvis] at h
      exact hmodule h
  | visHidden =>
      rw [hvis] at h
      exact hmodule h
  | visProtected =>
      rw [hvis] at h
      exact hmodule h

/-! ## The loop -/

/-- The addresses the jumps start from. -/
def BinPatch.funcValues (bp : BinPatch) : List Nat := bp.funcJumps.map BinPatch.FuncJump.funcValue

theorem protoField_eq_ok {bits n r : Nat} (h : protoField bits n = .ok r) : r = n := by
  rw [protoField] at h
  split at h
  · cases h
    rfl
  · cases h

theorem PatchSym.funcJump_value {st : List SymtabEntry} {sym : PatchSym} {addr : Nat}
    {fj : BinPatch.FuncJump} (h : sym.funcJump st addr = .ok fj) : fj.funcValue = addr := by
  obtain ⟨size, _, h⟩ := bind_eq_ok_iff.mp h
  obtain ⟨shndx, _, h⟩ := bind_eq_ok_iff.mp h
  obtain ⟨funcValue, hvalue, h⟩ := bind_eq_ok_iff.mp h
  obtain ⟨funcSize, _, h⟩ := bind_eq_ok_iff.mp h
  obtain ⟨secIdx, _, h⟩ := bind_eq_ok_iff.mp h
  obtain ⟨patchValue, _, h⟩ := bind_eq_ok_iff.mp h
  cases h
  exact protoField_eq_ok hvalue

/-- A symbol adds a jump from its address if it is a definition, and no jump
otherwise. -/
theorem BinPatch.addSym_funcValues {st : List SymtabEntry} {bp bp' : BinPatch} {sym : PatchSym}
    {addr : Option Nat} (h : bp.addSym st sym addr = .ok bp') :
    bp'.funcValues = bp.funcValues ++ if sym.isDef then addr.toList else [] := by
  unfold BinPatch.addSym at h
  rw [PatchSym.isDef]
  cases hkind : sym.symbol.info.kind with
  | symDef =>
      rw [hkind] at h
      cases addr with
      | none =>
          cases h
          simp
      | some a =>
          obtain ⟨fj, hfj, h⟩ := bind_eq_ok_iff.mp h
          cases h
          simp [BinPatch.funcValues, PatchSym.funcJump_value hfj]
  | symRef =>
      rw [hkind] at h
      have hnone : bp'.funcValues = bp.funcValues := by
        cases addr with
        | none =>
            dsimp only at h
            split at h
            · cases h
            · cases h
              rfl
        | some a =>
            obtain ⟨ms, _, h⟩ := bind_eq_ok_iff.mp h
            split at h
            · cases h
              rfl
            · cases h
              rfl
      simp [hnone]

/-- The jumps start from the addresses the definitions stand for, in order. -/
theorem resolveSyms_funcValues {t : Target} {st : List SymtabEntry} {group : List String}
    {syms : List PatchSym} {m : DioMap} {bp bp' : BinPatch} (hs : m.Sound)
    (hm : m.Exact t group) (hg : ∀ sym ∈ syms, sym.symbol.InGroup group)
    (h : resolveSyms t st syms m bp = .ok bp') :
    bp'.funcValues =
      bp.funcValues ++ (syms.filter PatchSym.isDef).filterMap fun s => s.symbol.addrIn t := by
  induction syms generalizing m bp with
  | nil =>
      cases h
      simp
  | cons sym syms induction =>
      rw [List.forall_mem_cons] at hg
      rw [resolveSyms] at h
      obtain ⟨⟨addr, m'⟩, hres, h⟩ := bind_eq_ok_iff.mp h
      dsimp only at h
      obtain ⟨bp'', hadd, hloop⟩ := bind_eq_ok_iff.mp h
      obtain ⟨rfl, hm'⟩ := Symbol.resolve_addrIn hs hm hg.1 hres
      rw [induction (Symbol.resolve_sound hs hres) hm' hg.2 hloop, BinPatch.addSym_funcValues hadd,
        List.append_assoc]
      congr 1
      cases hdef : sym.isDef with
      | true =>
          rw [List.filter_cons_of_pos hdef, if_pos rfl]
          cases haddr : sym.symbol.addrIn t <;> simp [haddr]
      | false => simp [hdef]

/-- The symbols a patch is linked to are of one group. -/
theorem linkSymbols_inGroup {group : List String} (hne : group ≠ []) {syms : List ReadSymbol}
    {front : List PatchSym} (hfront : ∀ s ∈ front, s.symbol.InGroup group) :
    ∀ s ∈ linkSymbols group syms front, s.symbol.InGroup group := by
  have hnames (sym : ReadSymbol) : (sym.info group).groupNames = group := by
    rw [SymInfo.groupNames, ReadSymbol.info, if_neg (by simpa using hne)]
  induction syms generalizing front with
  | nil => exact hfront
  | cons sym syms induction =>
      refine induction ?_
      rw [List.forall_mem_append, List.forall_mem_singleton]
      refine ⟨hfront, ?_⟩
      dsimp only
      rw [ReadSymbol.link]
      split
      · next parent hparent =>
          obtain ⟨i, _, hi⟩ := Option.bind_eq_some_iff.mp hparent
          exact ⟨hnames sym, hfront parent (List.mem_of_getElem? hi)⟩
      · exact hnames sym

theorem PatchElf.readPatch_inGroup {p : PatchElf} {syms : List PatchSym}
    (h : p.readPatch = .ok syms) : ∃ group, ∀ s ∈ syms, s.symbol.InGroup group := by
  obtain ⟨⟨mds, read⟩, _, h⟩ := bind_eq_ok_iff.mp h
  obtain ⟨symbols, _, h⟩ := bind_eq_ok_iff.mp h
  cases h
  refine ⟨symbols.map ReadSymbol.targetName, ?_⟩
  cases symbols with
  | nil => exact fun _ h => nomatch h
  | cons sym symbols => exact linkSymbols_inGroup (List.cons_ne_nil _ _) fun _ h => nomatch h

/-- The attributes of the symbols are those that have been read. -/
theorem linkSymbols_info (group : List String) (syms : List ReadSymbol) (front : List PatchSym) :
    (linkSymbols group syms front).map (fun s => s.symbol.info) =
      front.map (fun s => s.symbol.info) ++ syms.map (ReadSymbol.info group) := by
  induction syms generalizing front with
  | nil =>
      rw [List.map_nil, List.append_nil]
      rfl
  | cons sym syms induction =>
      have hinfo : (sym.link group front).info = sym.info group := by
        rw [ReadSymbol.link]
        split <;> rfl
      rw [linkSymbols, induction, List.map_append, List.map_singleton, hinfo, List.append_assoc]
      rfl

/-- `resolve_file_scopes` leaves no two static definitions of one target file
name and one target name. -/
theorem PatchElf.readPatch_static_apart {p : PatchElf} {syms : List PatchSym}
    (h : p.readPatch = .ok syms) :
    syms.Pairwise fun s s' => s.isDef → s'.isDef → ¬ s.symbol.info.SameStatic s'.symbol.info := by
  obtain ⟨⟨mds, read⟩, _, h⟩ := bind_eq_ok_iff.mp h
  obtain ⟨symbols, hmeta, h⟩ := bind_eq_ok_iff.mp h
  cases h
  have hnodup := processMeta_definedLocs_nodup hmeta
  rw [definedLocs, List.Nodup, List.pairwise_map, List.pairwise_filter] at hnodup
  -- the relation is one of the attributes, and these are the ones that were read
  have hinfos : ((linkSymbols (symbols.map ReadSymbol.targetName) symbols []).map
      fun s => s.symbol.info).Pairwise fun info info' =>
        info.kind = .symDef → info'.kind = .symDef → ¬ info.SameStatic info' := by
    rw [linkSymbols_info, List.map_nil, List.nil_append, List.pairwise_map]
    refine hnodup.imp fun hne hkind hkind' hsame => ?_
    obtain ⟨hvis, hvis', hfile, hname⟩ := hsame
    exact hne (by simpa [ReadSymbol.isStaticDef] using ⟨hvis, hkind⟩)
      (by simpa [ReadSymbol.isStaticDef] using ⟨hvis', hkind'⟩) (Prod.ext hfile hname)
  refine (List.pairwise_map.mp hinfos).imp fun hne hs hs' => ?_
  exact hne (of_decide_eq_true hs) (of_decide_eq_true hs')

/-- The jumps of a patch start from pairwise distinct addresses exactly when no
two of its definitions, other than those that are checked, stand for one address
of the target. -/
theorem PatchElf.resolve_redirects_once_iff {t : TargetElf} {p : PatchElf} {bp : BinPatch}
    (h : p.resolve t = .ok bp) : bp.funcValues.Nodup ↔ p.NamesApart t := by
  obtain ⟨syms, hsyms, h⟩ := bind_eq_ok_iff.mp h
  obtain ⟨st, _, h⟩ := bind_eq_ok_iff.mp h
  obtain ⟨group, hg⟩ := PatchElf.readPatch_inGroup hsyms
  have hexact : DioMap.Exact t.target group .empty := fun _ => .inl rfl
  have hvalues := resolveSyms_funcValues (Reached.empty (t := t.target)).sound hexact hg h
  have hnil : (BinPatch.mk [] [] []).funcValues = [] := rfl
  rw [hnil, List.nil_append] at hvalues
  rw [hvalues, List.Nodup, List.pairwise_filterMap, List.pairwise_filter]
  constructor
  · intro hpair syms' hsyms'
    rw [hsyms] at hsyms'
    cases hsyms'
    refine hpair.imp fun hne hs hs' _ addr haddr haddr' => ?_
    exact hne hs hs' addr haddr addr haddr' rfl
  · intro hapart
    have hboth := (PatchElf.readPatch_static_apart hsyms).and (hapart syms hsyms)
    refine hboth.imp fun ⟨hstatic, hne⟩ hs hs' addr haddr addr' haddr' => ?_
    rintro rfl
    exact hne hs hs' (hstatic hs hs') addr haddr haddr'

/-! ## One function under two designations -/

/-- The entries of two DIEs below a top DIE. -/
def twoDiesAt (off : Nat) (top first second : Die) (pos : Nat) : Entry Die :=
  if pos = off + 11 then ⟨10, Nat.succ_pos 9, some (top, true)⟩
  else if pos = off + 21 then ⟨9, Nat.succ_pos 8, some (first, false)⟩
  else if pos = off + 30 then ⟨10, Nat.succ_pos 9, some (second, false)⟩
  else ⟨1, Nat.succ_pos 0, none⟩

/-- Their tree. -/
def twoDiesTree (top first second : Die) : EntryTree Die :=
  .branch top 10 [.leaf first 9, .leaf second 10] 1

theorem twoDiesTree_laid (off : Nat) (top first second : Die) :
    (twoDiesTree top first second).LaidOut (twoDiesAt off top first second) (off + 11) := by
  simp [twoDiesTree, twoDiesAt, EntryTree.LaidOut, EntryTree.LaidOuts, EntryTree.size,
    EntryTree.sizes, Nat.add_assoc]

theorem twoDiesTree_fits (off : Nat) (top first second : Die) :
    off + 11 + (twoDiesTree top first second).size ≤ off + 37 + 4 := by
  simp [twoDiesTree, EntryTree.size, EntryTree.sizes, Nat.add_assoc]

/-- A compile unit with two DIEs below its top DIE. -/
def twoDies (off : Nat) (top first second : Die) : CU where
  cuOffset := off
  unitLength := 37
  initialLengthFieldSize := 4
  cuDieOffset := off + 11
  dieAt := twoDiesAt off top first second
  tree := twoDiesTree top first second
  laid := twoDiesTree_laid off top first second
  fits := twoDiesTree_fits off top first second

/-- The first entry of every symbol table. -/
def nullEntry : SymtabEntry := ⟨"", 0, 0, .other 0, .stbLocal, .stvDefault, .shnUndef⟩

/-- A static function of 16 bytes. -/
def funcEntry (name : String) (addr : Nat) : SymtabEntry :=
  ⟨name, addr, 16, .sttFunc, .stbLocal, .stvDefault, .index 1⟩

/-- A metadata object. -/
def metaEntry (name : String) (addr : Nat) : SymtabEntry :=
  ⟨name, addr, 40, .sttObject, .stbLocal, .stvDefault, .index 2⟩

/-- A target whose only compile unit `util.c` has two static functions. -/
def workTarget : TargetElf where
  cus := some [twoDies 0 (unitDie "util.c") (funcDie "work" 0x1000) (funcDie "rest" 0x1010)]
  symtab := some [nullEntry, funcEntry "work" 0x1000, funcEntry "rest" 0x1010]
  dynsym := some [nullEntry]

/-- A patch of two compile units.  `a.c` defines `work` after
`VZP_FILE("util.c")`, and `b.c` defines `fix` as an alias of `name`. -/
def workPatch (name : String) : PatchElf where
  cus := some [
    twoDies 0 (unitDie "a.c") (varDie "vzpatch_file_0" 0x3000) (funcDie "work" 0x2000),
    twoDies 41 (unitDie "b.c") (varDie "vzpatch_alias_0" 0x3028) (funcDie "fix" 0x2010)]
  sections := ["", ".text", "vzp_meta"]
  symtab := some [nullEntry, metaEntry "vzpatch_file_0" 0x3000, funcEntry "work" 0x2000,
    metaEntry "vzpatch_alias_0" 0x3028, funcEntry "fix" 0x2010]
  dynsym := some [nullEntry]
  srcLocation := fun dio =>
    .ok (if dio.cu.cuOffset = 0 then "a.c" else "b.c", if dio.die.tag = .var then 3 else 10)
  value := fun dio =>
    .ok (if dio.cu.cuOffset = 0 then ⟨"a.c", 3, .tagFile (some "util.c")⟩
      else ⟨"b.c", 3, .tagAlias "fix" name⟩)

theorem workPatch_rest_apart :
    (workPatch "rest").resolve workTarget =
        .ok ⟨[⟨"work", 0x1000, 16, 0x2000, 1⟩, ⟨"rest", 0x1010, 16, 0x2010, 1⟩], [], []⟩ ∧
      (workPatch "rest").NamesApart workTarget := by
  have hres : (workPatch "rest").resolve workTarget =
      .ok ⟨[⟨"work", 0x1000, 16, 0x2000, 1⟩, ⟨"rest", 0x1010, 16, 0x2010, 1⟩], [], []⟩ := rfl
  exact ⟨hres, (PatchElf.resolve_redirects_once_iff hres).mp (by decide)⟩

/-- `work` of `util.c` and the `work` of the symbol table are one function, and
the patch jumps from it to `work` and to `fix`. -/
theorem workPatch_work_twice :
    ∃ bp, (workPatch "work").resolve workTarget = .ok bp ∧
      bp.funcValues = [0x1000, 0x1000] ∧ ¬ bp.funcValues.Nodup :=
  ⟨⟨[⟨"work", 0x1000, 16, 0x2000, 1⟩, ⟨"work", 0x1000, 16, 0x2010, 1⟩], [], []⟩, rfl, rfl,
    by decide⟩

end Nsb
