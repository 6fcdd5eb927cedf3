import Nsb.Generator.DieLookup
import Nsb.Generator.Resolve

/-!
# References inside of functions

A static reference that stands in a function of the patch is bound to a variable
of the same function in the target.  `StaticSymbol._get_dio` asks the symbol of
the function for its DIE and looks for the variable below it.

A static symbol finds its DIE by the way it is resolved.  The other classes
inherit `Symbol.get_dio`, which calls `resolve` without the target.

The symbols of a patch have one group, the list of all of them, so the map of
`get_dio` is filled for one group of names in every run.
-/

namespace Nsb

/-- The maps after symbols of one group have been resolved in a target, in any number
and order. -/
inductive ReachedIn (t : Target) (group : List String) : DioMap → Prop where
  | empty : ReachedIn t group .empty
  | resolve {m m' : DioMap} {sym : Symbol} {addr : Option Nat} :
      ReachedIn t group m → sym.InGroup group → sym.resolve t m = .ok (addr, m') →
        ReachedIn t group m'

theorem ReachedIn.reached {t : Target} {group : List String} {m : DioMap}
    (h : ReachedIn t group m) : Reached t m := by
  induction h with
  | empty => exact .empty
  | resolve _ _ hres induction => exact .resolve induction hres

theorem ReachedIn.exact {t : Target} {group : List String} {m : DioMap}
    (h : ReachedIn t group m) : m.Exact t group := by
  induction h with
  | empty => exact fun _ => .inl rfl
  | resolve hm hg hres induction =>
      exact (Symbol.resolve_addrIn hm.reached.sound induction hg hres).2

/-- The DIE of the function of the target that a definition of the patch is
resolved to: the one that a static definition stands for, and the one at the
address for any other. -/
def Symbol.TargetFunction (t : Target) (m : DioMap) (sym : Symbol) (func : Dio) : Prop :=
  ∃ addr m', sym.resolve t m = .ok (some addr, m') ∧ func.die.tag = .subprogram ∧
    if sym.info.visibility = .visStatic then sym.targetDio t = some func
    else func ∈ t.dios ∧ func.die.addr = some addr

/-- A static definition that is resolved finds the DIE it stands for. -/
theorem Symbol.getDio_of_resolve {t : Target} {group : List String} {m m' : DioMap}
    (hm : ReachedIn t group m) {sym : Symbol} (hg : sym.InGroup group)
    (hvis : sym.info.visibility = .visStatic) {func : Dio} (hfunc : sym.targetDio t = some func)
    {addr : Option Nat} (h : sym.resolve t m = .ok (addr, m')) :
    sym.getDio t m = .ok (func, m') := by
  rw [Symbol.resolve, hvis] at h
  obtain ⟨dio, _, hdio, _, _⟩ := Symbol.staticResolve_eq_ok_iff.mp h
  obtain ⟨htarget, _⟩ := Symbol.getDio_targetDio hm.reached.sound hm.exact hg hdio
  rw [hfunc] at htarget
  cases htarget
  exact hdio

/-- A DIE has exactly one immediate child of a name, which is not external and
has a constant address. -/
def Dio.HasVariable (func : Dio) (name : String) (addr : Nat) : Prop :=
  ∃ child, named name func.children = [child] ∧ child.die.has .external = false ∧
    child.die.addr = some addr

/-- Only a static symbol finds its DIE. -/
theorem Symbol.visStatic_of_getDio {t : Target} {sym : Symbol} {m m' : DioMap} {dio : Dio}
    (h : sym.getDio t m = .ok (dio, m')) : sym.info.visibility = .visStatic := by
  cases sym with
  | top info => exact (Symbol.getDio_top_iff.mp h).1
  | nested info parent =>
      rw [Symbol.getDio] at h
      split at h
      · cases h
      · next hvis => exact not_not.mp hvis

theorem Symbol.getDio_nested_eq {t : Target} {info : SymInfo} {parent : Symbol} {m m' : DioMap}
    {parentDio dio : Dio} (hvis : info.visibility = .visStatic)
    (hparent : parent.getDio t m = .ok (parentDio, m'))
    (hlookup : info.lookupIn (some parentDio) = .ok (some dio))
    (hext : dio.die.has .external = false) :
    (Symbol.nested info parent).getDio t m = .ok (dio, m') := by
  rw [Symbol.getDio, if_neg (not_not_intro hvis), hparent]
  refine bind_eq_ok_iff.mpr ⟨_, rfl, bind_eq_ok_iff.mpr ⟨_, hlookup, ?_⟩⟩
  exact bind_eq_ok_iff.mpr ⟨dio, SymInfo.checkStatic_eq_ok_iff.mpr ⟨rfl, hext⟩, rfl⟩

/-- A static reference in a function that is resolved is bound to the variable
of the function in the target exactly when the function is static, and the names
that are looked through can be read. -/
theorem Symbol.inner_reference_iff {t : Target} {group : List String} {m : DioMap}
    (hm : ReachedIn t group m) {info : SymInfo} (hvis : info.visibility = .visStatic)
    {parent : Symbol} (hg : parent.InGroup group) {func : Dio}
    (hfunc : parent.TargetFunction t m func) {addr : Nat}
    (hvar : func.HasVariable info.targetName addr) :
    (∃ m', (Symbol.nested info parent).resolve t m = .ok (some addr, m')) ↔
      parent.info.visibility = .visStatic ∧ info.targetName ≠ "" ∧
        ∀ child ∈ func.children, child.die.nameOk = true := by
  obtain ⟨faddr, m₁, hresolve, _, hdie⟩ := hfunc
  obtain ⟨child, honly, hext, haddr⟩ := hvar
  have hstatic : ∀ m', (Symbol.nested info parent).resolve t m = .ok (some addr, m') ↔
      (Symbol.nested info parent).staticResolve t m = .ok (some addr, m') := by
    intro m'
    rw [Symbol.resolve, Symbol.info, hvis]
  constructor
  · rintro ⟨m', h⟩
    rw [hstatic] at h
    obtain ⟨dio, _, hdio, _, _⟩ := Symbol.staticResolve_eq_ok_iff.mp h
    obtain ⟨parentDio, hparent, hlookup⟩ := Symbol.getDio_nested hdio
    have hpvis := Symbol.visStatic_of_getDio hparent
    rw [if_pos hpvis] at hdie
    have hfound := Symbol.getDio_of_resolve hm hg hpvis hdie hresolve
    rw [hfound] at hparent
    cases hparent
    have hvalid := (Symbol.getDio_sound hm.reached.sound hfound).1
    obtain ⟨hname, hnames, _⟩ := (SymInfo.lookupIn_eq_some_iff hvalid).mp hlookup
    exact ⟨hpvis, hname, hnames⟩
  · rintro ⟨hpvis, hname, hnames⟩
    rw [if_pos hpvis] at hdie
    have hfound := Symbol.getDio_of_resolve hm hg hpvis hdie hresolve
    have hvalid := (Symbol.getDio_sound hm.reached.sound hfound).1
    have hlookup := (SymInfo.lookupIn_eq_some_iff hvalid).mpr ⟨hname, hnames, honly⟩
    have hdio := Symbol.getDio_nested_eq hvis hfound hlookup hext
    -- the debug information could be read when the function was resolved
    rw [Symbol.resolve, hpvis] at hresolve
    obtain ⟨_, di, _, hdi, _⟩ := Symbol.staticResolve_eq_ok_iff.mp hresolve
    refine ⟨m₁, (hstatic m₁).mpr (Symbol.staticResolve_eq_ok_iff.mpr ⟨child, di, hdio, hdi, ?_⟩)⟩
    exact DebugInfo.getAddr_eq_some_iff.mpr haddr

/-! ## A static and an external function -/

/-- A function that other files see. -/
def externFuncDie (name : String) (addr : Nat) : Die :=
  ⟨.subprogram, [(.name, .strp name), (.external, .other 1), (.lowPc, .addr addr)]⟩

/-- A target whose function `work` has a static variable `state`. -/
def stateTarget (func : Die) (bind : StBind) : TargetElf where
  cus := some [nestedUnit 0 (unitDie "work.c") func (varDie "state" 0x3000) (varDie "count" 0x3008)]
  symtab := some [nullEntry, ⟨"work", 0x1000, 16, .sttFunc, bind, .stvDefault, .index 1⟩]
  dynsym := some [nullEntry]

/-- A patch that defines `work` again, with a reference to `state` in it. -/
def statePatch (func : Die) (bind : StBind) : PatchElf where
  cus := some [nestedUnit 0 (unitDie "patch.c") func (varDie "vzpatch_sym_0" 0x3000)
    ⟨.other "DW_TAG_base_type", [(.name, .strp "int")]⟩]
  sections := ["", ".text", "vzp_meta"]
  symtab := some [nullEntry, metaEntry "vzpatch_sym_0" 0x3000,
    ⟨"work", 0x2000, 16, .sttFunc, bind, .stvDefault, .index 1⟩,
    ⟨"state", 0, 0, .other 0, .stbGlobal, .stvDefault, .shnUndef⟩]
  dynsym := some [nullEntry, ⟨"state", 0, 0, .other 0, .stbGlobal, .stvDefault, .shnUndef⟩]
  srcLocation := fun dio => .ok ("patch.c", if dio.die.tag = .var then 4 else 2)
  value := fun _ => .ok ⟨"patch.c", 4, .tagSymbol "state" 100 none⟩

/-- The function of the patch, of a visibility. -/
def workDef (vis : Visibility) : Symbol :=
  .top ⟨.symDef, vis, "work", some ("patch.c", 2), "work", none, ["work", "state"]⟩

/-- The reference to `state` in it. -/
def stateRef : SymInfo :=
  ⟨.symRef, .visStatic, "state", some ("patch.c", 4), "state", none, ["work", "state"]⟩

/-- The function of the target. -/
def stateFunc (func : Die) : Dio :=
  (nestedUnit 0 (unitDie "work.c") func (varDie "state" 0x3000) (varDie "count" 0x3008)).dio
    ⟨21, func, some 11⟩

theorem stateFunc_hasVariable (func : Die) : (stateFunc func).HasVariable "state" 0x3000 :=
  ⟨_, rfl, rfl, rfl⟩

/-- In a static function, the reference is bound, and so is the patch. -/
theorem stateRef_static :
    (∃ m', (Symbol.nested stateRef (workDef .visStatic)).resolve
        (stateTarget (funcDie "work" 0x1000) .stbLocal).target .empty = .ok (some 0x3000, m')) ∧
      (statePatch (funcDie "work" 0x2000) .stbLocal).resolve
        (stateTarget (funcDie "work" 0x1000) .stbLocal) =
        .ok ⟨[⟨"work", 0x1000, 16, 0x2000, 1⟩], [⟨1, 0x3000⟩], []⟩ := by
  have hfunc : (workDef .visStatic).TargetFunction
      (stateTarget (funcDie "work" 0x1000) .stbLocal).target .empty
      (stateFunc (funcDie "work" 0x1000)) :=
    ⟨0x1000, _, rfl, rfl, rfl⟩
  have hnames : ∀ child ∈ (stateFunc (funcDie "work" 0x1000)).children,
      child.die.nameOk = true := by
    intro child hchild
    rw [List.mem_singleton.mp hchild]
    rfl
  have hg : (workDef .visStatic).InGroup ["work", "state"] := rfl
  refine ⟨(Symbol.inner_reference_iff .empty rfl hg hfunc (stateFunc_hasVariable _)).mpr ?_, rfl⟩
  exact ⟨rfl, by simp [stateRef], hnames⟩

/-- In an external function that is resolved, the same reference ends the
generator. -/
theorem stateRef_external :
    (workDef .visExternal).TargetFunction
        (stateTarget (externFuncDie "work" 0x1000) .stbGlobal).target .empty
        (stateFunc (externFuncDie "work" 0x1000)) ∧
      (stateFunc (externFuncDie "work" 0x1000)).HasVariable stateRef.targetName 0x3000 ∧
      (Symbol.nested stateRef (workDef .visExternal)).resolve
        (stateTarget (externFuncDie "work" 0x1000) .stbGlobal).target .empty =
        .error .typeError ∧
      (statePatch (externFuncDie "work" 0x2000) .stbGlobal).resolve
        (stateTarget (externFuncDie "work" 0x1000) .stbGlobal) = .error .typeError := by
  refine ⟨⟨0x1000, _, rfl, rfl, ?_, rfl⟩, stateFunc_hasVariable _, rfl, rfl⟩
  exact .tail _ (.head _)

end Nsb
