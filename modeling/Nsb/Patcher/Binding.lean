import Nsb.Patcher.LoadBase
import Nsb.Patcher.Relocations

/-!
# Symbol binding

The dynamic linker would bind a symbol of the patch to the first object of the
search list that defines it, had the patch been linked in place of the target.
`binding` is this reference lookup: marked symbols are bound to the target, and
for the others the patch stands in the list right before the target.

`resolve_symbol` finds the same object in two passes with a stop element, and
passes values, errors and "not found" through one `int64_t`.  The main theorem
`resolveSymbol_applyEs_binds` says that together with `apply_es` it writes what
the reference lookup gives, and fails when that finds nothing.
-/

namespace Nsb

/-! ## The reference lookup -/

/-- The value of the first dynamic symbol of that name and non-zero size, zero
when there is none. -/
def definedValue (ei : ElfInfo) (name : String) : BitVec 64 :=
  (((ei.dynsym.getD []).find? fun sym => sym.Defines name).map Sym.stValue).getD 0

/-- The search list with the patch, `none`, right before the target. -/
def withPatch (target : DlMap) : List DlMap → List (Option DlMap)
  | [] => []
  | dlm :: l =>
      if dlm.id = target.id then none :: some dlm :: l.map some
      else some dlm :: withPatch target l

/-- The value an object gives to the symbol; for the patch it is `st_value`. -/
def valueIn (es : ExternSymbol) : Option DlMap → BitVec 64
  | none => es.sym.stValue
  | some dlm => definedValue dlm.ei es.name

/-- The non-zero address a symbol is marked with. -/
def markOf (msyms : List MarkedSym) (es : ExternSymbol) : Option (BitVec 64) :=
  (msyms.find? fun ms => ms.idx = esRSym es ∧ ms.addr ≠ 0).map MarkedSym.addr

/-- The object and the value that the symbol is bound to. -/
def binding (ctx : Ctx) (es : ExternSymbol) : Option (Option DlMap × BitVec 64) :=
  match markOf ctx.pi.manualSyms es with
  | some addr => some (some ctx.targetDlm, addr)
  | none =>
      match if targetIsExecutable ctx then markOf ctx.pi.globalSyms es else none with
      | some addr => some (some ctx.targetDlm, addr)
      | none =>
          ((withPatch ctx.targetDlm ctx.neededList).find? fun o => valueIn es o ≠ 0).map
            fun o => (o, valueIn es o)

/-- What `R_X86_64_64` adds to the symbol. -/
def addendOf (es : ExternSymbol) : BitVec 64 :=
  if esRType es = R_X86_64_64 then es.rela.rAddend else 0

/-- The relocation types that `elf_reloc_sym` supports. -/
def Supported (es : ExternSymbol) : Prop :=
  esRType es = R_X86_64_GLOB_DAT ∨ esRType es = R_X86_64_JUMP_SLOT ∨ esRType es = R_X86_64_64

instance (es : ExternSymbol) : Decidable (Supported es) :=
  inferInstanceAs (Decidable (_ ∨ _))

/-! ## Assumptions -/

/-- The symbol tables are read faithfully and hold values below `2 ^ 63`. -/
structure SymtabOk (ei : ElfInfo) : Prop where
  name : ∀ sym ∈ ei.dynsym.getD [], sym.name ≠ none
  value : ∀ sym ∈ ei.dynsym.getD [], sym.stValue.toNat < 2 ^ 63

/-- Marks have distinct indices and addresses below `2 ^ 63`. -/
structure MarksOk (msyms : List MarkedSym) : Prop where
  distinct : (msyms.map MarkedSym.idx).Nodup
  addr : ∀ ms ∈ msyms, ms.addr.toNat < 2 ^ 63

/-- The inputs that the lookup is specified for. -/
structure BindingOk (ctx : Ctx) (es : ExternSymbol) : Prop where
  needed : ∀ dlm ∈ ctx.neededList, SymtabOk dlm.ei
  manual : MarksOk ctx.pi.manualSyms
  global : MarksOk ctx.pi.globalSyms
  own : es.sym.stValue.toNat < 2 ^ 63

/-! ## Values as signed numbers -/

theorem toInt_of_lt {x : BitVec 64} (h : x.toNat < 2 ^ 63) : x.toInt = x.toNat := by
  rw [BitVec.toInt_eq_toNat_cond, if_pos (by omega)]

theorem toInt_nonneg {x : BitVec 64} (h : x.toNat < 2 ^ 63) : ¬ x.toInt < 0 := by
  rw [toInt_of_lt h]
  omega

theorem toInt_eq_zero_iff {x : BitVec 64} : x.toInt = 0 ↔ x = 0 := by
  rw [← BitVec.toInt_zero, BitVec.toInt_inj]
  rfl

/-! ## One object -/

theorem compareSymName_of_readable (name : String) {sym : Sym} (h : sym.name ≠ none) :
    compareSymName name sym = if sym.Defines name then 1 else 0 := by
  obtain ⟨s, hs⟩ := Option.ne_none_iff_exists'.mp h
  simp only [compareSymName, Sym.Defines]
  by_cases hn : sym.stName = 0#32
  · simp [hn]
  · by_cases hz : sym.stSize = 0#64
    · simp [hz]
    · simp [hn, hz, hs]

theorem findSym_of_readable (name : String) :
    ∀ {syms : List Sym}, (∀ sym ∈ syms, sym.name ≠ none) →
      findSym name syms =
        match syms.find? fun sym => sym.Defines name with
        | some sym => .ok sym
        | none => .error (-ENOENT)
  | [], _ => rfl
  | sym :: l, h => by
      have hl := findSym_of_readable name fun s hs => h s (List.mem_cons_of_mem _ hs)
      have hc := compareSymName_of_readable name (h sym (List.mem_cons_self ..))
      by_cases hd : sym.Defines name
      · simp [findSym, hc, hd]
      · simp [findSym, hc, hd, hl]

/-- `elf_dyn_sym_value` is the value, or zero when the name is not defined. -/
theorem elfDynSymValue_eq {ei : ElfInfo} (h : SymtabOk ei) (name : String) :
    elfDynSymValue ei name = (definedValue ei name).toInt := by
  rw [elfDynSymValue, elfFindDsymByName, definedValue]
  cases hs : ei.dynsym with
  | none => simp
  | some syms =>
      have hn : ∀ sym ∈ syms, sym.name ≠ none := by simpa [hs] using h.name
      simp only [Option.getD_some, findSym_of_readable name hn]
      cases syms.find? (fun sym => sym.Defines name) with
      | none => simp
      | some sym => rfl

theorem definedValue_lt {ei : ElfInfo} (h : SymtabOk ei) (name : String) :
    (definedValue ei name).toNat < 2 ^ 63 := by
  rw [definedValue]
  cases hf : (ei.dynsym.getD []).find? (fun sym => sym.Defines name) with
  | none => simp
  | some sym => exact h.value sym (List.mem_of_find?_eq_some hf)

/-! ## The search -/

/-- What a pass of `__find_dym_sym` returns when the first object with a
non-zero value is `o`. -/
def passResult (es : ExternSymbol) : Option (Option DlMap) → ExternSymbol × Int
  | some o => ({ es with dlm := o }, (valueIn es o).toInt)
  | none => (es, -ENOENT)

/-- The first object decides unless its value is zero. -/
theorem passResult_find?_cons (es : ExternSymbol) (o : Option DlMap) (os : List (Option DlMap)) :
    passResult es ((o :: os).find? fun o => valueIn es o ≠ 0) =
      if valueIn es o ≠ 0 then passResult es (some o)
      else passResult es (os.find? fun o => valueIn es o ≠ 0) := by
  rw [List.find?_cons]
  split <;> simp_all

/-- One object of a pass that the stop element does not end. -/
theorem findDymSymLoop_cons {stop : Option DlMap} {own : BitVec 64} {es : ExternSymbol}
    {dlm : DlMap} {deps : List DlMap} (h : SymtabOk dlm.ei)
    (hstop : ¬ (own ≠ 0 ∧ stop.any (fun s => s.id == dlm.id) = true)) :
    findDymSymLoop stop own es (dlm :: deps) =
      if valueIn es (some dlm) ≠ 0 then passResult es (some (some dlm))
      else findDymSymLoop stop own es deps := by
  have hnn := toInt_nonneg (definedValue_lt h es.name)
  rw [findDymSymLoop, if_neg hstop, elfDynSymValue_eq h]
  dsimp only
  rw [if_neg hnn]
  by_cases hv : valueIn es (some dlm) = 0
  · have hz : (definedValue dlm.ei es.name).toInt = 0 := toInt_eq_zero_iff.mpr hv
    rw [if_neg (not_not_intro hz), if_neg (not_not_intro hv)]
  · have hz : (definedValue dlm.ei es.name).toInt ≠ 0 := fun h0 => hv (toInt_eq_zero_iff.mp h0)
    rw [if_pos hz, if_pos hv]
    rfl

/-- A pass that meets no stop element is the search in the needed list. -/
theorem findDymSymLoop_plain (stop : Option DlMap) (own : BitVec 64) (es : ExternSymbol)
    (hstop : own = 0 ∨ stop = none) :
    ∀ {needed : List DlMap}, (∀ dlm ∈ needed, SymtabOk dlm.ei) →
      findDymSymLoop stop own es needed =
        passResult es ((needed.map some).find? fun o => valueIn es o ≠ 0)
  | [], _ => rfl
  | dlm :: l, h => by
      have hl := findDymSymLoop_plain stop own es hstop fun d hd => h d (List.mem_cons_of_mem _ hd)
      have hno : ¬ (own ≠ 0 ∧ stop.any (fun s => s.id == dlm.id) = true) := by
        cases hstop with
        | inl h0 => exact fun hc => hc.1 h0
        | inr h0 => subst h0; exact fun hc => by cases hc.2
      rw [findDymSymLoop_cons (h dlm (List.mem_cons_self ..)) hno, hl, List.map_cons,
        passResult_find?_cons]

/-- The pass with the target as stop element is the search in the list with the
patch. -/
theorem findDymSymLoop_target (target : DlMap) (es : ExternSymbol) (hdlm : es.dlm = none) :
    ∀ {needed : List DlMap}, (∀ dlm ∈ needed, SymtabOk dlm.ei) →
      findDymSymLoop (some target) es.sym.stValue es needed =
        passResult es ((withPatch target needed).find? fun o => valueIn es o ≠ 0)
  | [], _ => rfl
  | dlm :: l, h => by
      have hd : SymtabOk dlm.ei := h dlm (List.mem_cons_self ..)
      have hrest : ∀ d ∈ l, SymtabOk d.ei := fun d hd => h d (List.mem_cons_of_mem _ hd)
      by_cases hid : dlm.id = target.id
      · rw [withPatch, if_pos hid, List.find?_cons]
        by_cases hown : es.sym.stValue = 0
        · have hp := findDymSymLoop_plain (some target) _ es (.inl hown) h
          simp only [valueIn, hown, ne_eq, not_true_eq_false, decide_false] at hp ⊢
          exact hp
        · have hno : es.sym.stValue ≠ 0 ∧ (some target).any (fun s => s.id == dlm.id) = true :=
            ⟨hown, by simp [hid]⟩
          have hes : { es with dlm := none } = es := by rw [← hdlm]
          rw [findDymSymLoop, if_pos hno]
          simp only [valueIn, hown, ne_eq, not_false_eq_true, decide_true, passResult, hes]
      · have hno : ¬ (es.sym.stValue ≠ 0 ∧ (some target).any (fun s => s.id == dlm.id) = true) := by
          rintro ⟨-, hc⟩
          exact hid (by simpa using hc : target.id = dlm.id).symm
        rw [findDymSymLoop_cons hd hno, findDymSymLoop_target target es hdlm hrest, withPatch,
          if_neg hid, passResult_find?_cons]

theorem some_mem_withPatch {target dlm : DlMap} :
    ∀ {needed : List DlMap}, dlm ∈ needed → some dlm ∈ withPatch target needed
  | d :: l, h => by
      rw [withPatch]
      by_cases hid : d.id = target.id
      · rw [if_pos hid]
        exact List.mem_cons_of_mem _ (List.mem_map.mpr ⟨dlm, h, rfl⟩)
      · rw [if_neg hid]
        cases List.mem_cons.mp h with
        | inl he => rw [he]; exact List.mem_cons_self ..
        | inr hl => exact List.mem_cons_of_mem _ (some_mem_withPatch hl)

theorem mem_of_some_mem_withPatch {target dlm : DlMap} :
    ∀ {needed : List DlMap}, some dlm ∈ withPatch target needed → dlm ∈ needed
  | d :: l, h => by
      rw [withPatch] at h
      by_cases hid : d.id = target.id
      · rw [if_pos hid] at h
        simpa using h
      · rw [if_neg hid] at h
        cases List.mem_cons.mp h with
        | inl he => rw [Option.some.inj he]; exact List.mem_cons_self ..
        | inr hl => exact List.mem_cons_of_mem _ (mem_of_some_mem_withPatch hl)

theorem valueIn_lt {ctx : Ctx} {es : ExternSymbol} (h : BindingOk ctx es) {o : Option DlMap}
    (ho : o ∈ withPatch ctx.targetDlm ctx.neededList) : (valueIn es o).toNat < 2 ^ 63 := by
  cases o with
  | none => exact h.own
  | some dlm => exact definedValue_lt (h.needed dlm (mem_of_some_mem_withPatch ho)) es.name

/-- The two passes together. -/
theorem searchNeeded_eq {ctx : Ctx} {es : ExternSymbol} (h : BindingOk ctx es) :
    searchNeeded ctx es = passResult { es with dlm := none }
      ((withPatch ctx.targetDlm ctx.neededList).find? fun o => valueIn es o ≠ 0) := by
  have hval : ∀ o, valueIn { es with dlm := none } o = valueIn es o := fun o => by cases o <;> rfl
  have h1 : findDymSym ctx.neededList (some ctx.targetDlm) es es.sym.stValue =
      passResult { es with dlm := none }
        ((withPatch ctx.targetDlm ctx.neededList).find? fun o => valueIn es o ≠ 0) := by
    simpa only [findDymSym, hval] using
      findDymSymLoop_target ctx.targetDlm { es with dlm := none } rfl h.needed
  rw [searchNeeded]
  rw [h1]
  cases hf : (withPatch ctx.targetDlm ctx.neededList).find? (fun o => valueIn es o ≠ 0) with
  | some o =>
      have hlt := valueIn_lt h (List.mem_of_find?_eq_some hf)
      have hne : (valueIn es o).toInt ≠ -ENOENT := by
        rw [toInt_of_lt hlt, ENOENT]
        omega
      simp only [passResult, hval, if_pos hne]
  | none =>
      -- the second pass looks at objects the first one has looked at
      have hnone : (ctx.neededList.map some).find? (fun o => valueIn es o ≠ 0) = none := by
        rw [List.find?_eq_none] at hf ⊢
        intro o ho
        obtain ⟨dlm, hdlm, rfl⟩ := List.mem_map.mp ho
        exact hf _ (some_mem_withPatch hdlm)
      have h2 := findDymSymLoop_plain none es.sym.stValue { es with dlm := none } (.inr rfl)
        h.needed
      simp only [hval, hnone] at h2
      simpa [passResult, findDymSym] using h2

/-! ## Marks -/

/-- With distinct indices the first mark of an index is the only one. -/
theorem checkMarkedSymbols_eq (ctx : Ctx) (es : ExternSymbol) :
    ∀ {msyms : List MarkedSym}, (msyms.map MarkedSym.idx).Nodup →
      (∃ addr, markOf msyms es = some addr ∧ addr ≠ 0 ∧
        checkMarkedSymbols ctx es msyms = ({ es with dlm := some ctx.targetDlm }, addr.toInt)) ∨
      (markOf msyms es = none ∧
        ∃ dlm, checkMarkedSymbols ctx es msyms = ({ es with dlm := dlm }, 0))
  | [], _ => .inr ⟨rfl, es.dlm, rfl⟩
  | ms :: l, h => by
      rw [List.map_cons, List.nodup_cons] at h
      by_cases hi : ms.idx = esRSym es
      · have hcheck : checkMarkedSymbols ctx es (ms :: l) =
            ({ es with dlm := some ctx.targetDlm }, ms.addr.toInt) := by
          rw [checkMarkedSymbols, if_pos hi]
        by_cases hz : ms.addr = 0
        · refine .inr ⟨?_, some ctx.targetDlm, by rw [hcheck, hz]; rfl⟩
          rw [markOf, Option.map_eq_none_iff, List.find?_eq_none]
          intro m hm
          cases List.mem_cons.mp hm with
          | inl he => simp [he, hz]
          | inr hl =>
              have hne : m.idx ≠ esRSym es := fun hc =>
                h.1 (hi ▸ hc ▸ List.mem_map.mpr ⟨m, hl, rfl⟩)
              simp [hne]
        · refine .inl ⟨ms.addr, ?_, hz, hcheck⟩
          have hp : decide (ms.idx = esRSym es ∧ ms.addr ≠ 0) = true := decide_eq_true ⟨hi, hz⟩
          rw [markOf, List.find?_cons, hp]
          rfl
      · have hp : decide (ms.idx = esRSym es ∧ ms.addr ≠ 0) = false := by
          simp [hi]
        have hmark : markOf (ms :: l) es = markOf l es := by
          rw [markOf, List.find?_cons, hp]
          rfl
        rw [hmark, checkMarkedSymbols, if_neg hi]
        exact checkMarkedSymbols_eq ctx es h.2

theorem markOf_lt {msyms : List MarkedSym} (h : MarksOk msyms) {es : ExternSymbol}
    {addr : BitVec 64} (ha : markOf msyms es = some addr) : addr.toNat < 2 ^ 63 := by
  obtain ⟨ms, hms, rfl⟩ := Option.map_eq_some_iff.mp ha
  exact h.addr ms (List.mem_of_find?_eq_some hms)

/-! ## The whole lookup -/

/-- `find_dyn_sym` is the reference lookup. -/
theorem findDynSym_eq {ctx : Ctx} {es : ExternSymbol} (h : BindingOk ctx es) :
    findDynSym ctx es =
      match binding ctx es with
      | some (o, v) => ({ es with dlm := o }, v.toInt)
      | none => ({ es with dlm := none }, -ENOENT) := by
  have hsearch : ∀ dlm, searchNeeded ctx { es with dlm := dlm } =
      match ((withPatch ctx.targetDlm ctx.neededList).find? fun o => valueIn es o ≠ 0).map
        fun o => (o, valueIn es o) with
      | some (o, v) => ({ es with dlm := o }, v.toInt)
      | none => ({ es with dlm := none }, -ENOENT) := by
    intro dlm
    have hval : ∀ o, valueIn { es with dlm := dlm } o = valueIn es o := fun o => by cases o <;> rfl
    have hval' : ∀ o, valueIn { es with dlm := none } o = valueIn es o :=
      fun o => by cases o <;> rfl
    have hok : BindingOk ctx { es with dlm := dlm } := ⟨h.needed, h.manual, h.global, h.own⟩
    rw [searchNeeded_eq hok]
    simp only [hval]
    cases (withPatch ctx.targetDlm ctx.neededList).find? (fun o => valueIn es o ≠ 0) with
    | some o => simp only [passResult, Option.map_some, hval']
    | none => rfl
  simp only [findDynSym, binding, checkManualSymbols, checkGlobalSymbols]
  obtain ⟨addr, hm, hz, hc⟩ | ⟨hm, dlm, hc⟩ := checkMarkedSymbols_eq ctx es h.manual.distinct
  · have hnz : addr.toInt ≠ 0 := fun h0 => hz (toInt_eq_zero_iff.mp h0)
    simp only [hm, hc, if_pos hnz]
  · simp only [hm, hc, ne_eq, not_true_eq_false, if_false]
    by_cases ht : targetIsExecutable ctx = true
    · obtain ⟨addr, hg, hz, hc⟩ | ⟨hg, dlm', hc⟩ :=
        checkMarkedSymbols_eq ctx { es with dlm := dlm } h.global.distinct
      · have hnz : addr.toInt ≠ 0 := fun h0 => hz (toInt_eq_zero_iff.mp h0)
        have hg' : markOf ctx.pi.globalSyms es = some addr := hg
        simp only [if_pos ht, hg', hc, if_pos hnz]
      · have hg' : markOf ctx.pi.globalSyms es = none := hg
        simp only [if_pos ht, hg', hc, not_true_eq_false, if_false, hsearch]
    · simp only [if_neg ht, hsearch]

/-- A bound symbol has a non-zero value that is no negative number. -/
theorem binding_value {ctx : Ctx} {es : ExternSymbol} (h : BindingOk ctx es)
    {o : Option DlMap} {v : BitVec 64} (hb : binding ctx es = some (o, v)) :
    v.toNat < 2 ^ 63 := by
  rw [binding] at hb
  cases hm : markOf ctx.pi.manualSyms es with
  | some addr =>
      simp only [hm, Option.some.injEq, Prod.mk.injEq] at hb
      exact hb.2 ▸ markOf_lt h.manual hm
  | none =>
      simp only [hm] at hb
      cases hg : (if targetIsExecutable ctx then markOf ctx.pi.globalSyms es else none) with
      | some addr =>
          simp only [hg, Option.some.injEq, Prod.mk.injEq] at hb
          have hg' : markOf ctx.pi.globalSyms es = some addr := by
            by_cases ht : targetIsExecutable ctx = true
            · rwa [if_pos ht] at hg
            · rw [if_neg ht] at hg
              cases hg
          exact hb.2 ▸ markOf_lt h.global hg'
      | none =>
          simp only [hg] at hb
          obtain ⟨o', hf, he⟩ := Option.map_eq_some_iff.mp hb
          cases he
          exact valueIn_lt h (List.mem_of_find?_eq_some hf)

theorem elfRelocSym_of_supported {es : ExternSymbol} (h : Supported es) (address : BitVec 64) :
    elfRelocSym es address = ({ es with address := address + addendOf es }, 0) := by
  rw [elfRelocSym, addendOf]
  by_cases h1 : esRType es = R_X86_64_GLOB_DAT ∨ esRType es = R_X86_64_JUMP_SLOT
  · have hne : esRType es ≠ R_X86_64_64 := by
      rintro h64
      rw [h64] at h1
      revert h1
      decide
    rw [if_pos h1, if_neg hne]
    simp
  · have h64 : esRType es = R_X86_64_64 := by
      rcases h with h | h | h
      · exact absurd (.inl h) h1
      · exact absurd (.inr h) h1
      · exact h
    rw [if_neg h1, if_pos h64, if_pos h64]

/-- `resolve_symbol` binds the symbol as the reference lookup does. -/
theorem resolveSymbol_of_binding {ctx : Ctx} {es : ExternSymbol} (h : BindingOk ctx es)
    (ht : Supported es) {o : Option DlMap} {v : BitVec 64} (hb : binding ctx es = some (o, v)) :
    resolveSymbol ctx es = ({ es with dlm := o, address := v + addendOf es }, 0) := by
  have hv : ¬ v.toInt < 0 := toInt_nonneg (binding_value h hb)
  have hr : elfRelocSym { es with dlm := o } (BitVec.ofInt 64 v.toInt) =
      ({ es with dlm := o, address := v + addendOf es }, 0) := by
    rw [BitVec.ofInt_toInt]
    have ht' : Supported { es with dlm := o } := ht
    exact elfRelocSym_of_supported ht' v
  rw [resolveSymbol]
  rw [findDynSym_eq h, hb]
  simp only [if_neg hv, hr]
  rfl

/-- `resolve_symbol` fails when the reference lookup finds nothing. -/
theorem resolveSymbol_of_no_binding {ctx : Ctx} {es : ExternSymbol} (h : BindingOk ctx es)
    (hb : binding ctx es = none) : (resolveSymbol ctx es).2 ≠ 0 := by
  have hneg : (-ENOENT : Int) < 0 := by decide
  rw [resolveSymbol]
  rw [findDynSym_eq h, hb]
  simp only [if_pos hneg]
  decide

/-- For a supported relocation, `resolve_symbol` and `apply_es` write the
address of what the reference lookup finds into the slot, and `resolve_symbol`
fails exactly when the lookup finds nothing. -/
theorem resolveSymbol_applyEs_binds (ctx : Ctx) (es : ExternSymbol) (pdlm : DlMap)
    (h : BindingOk ctx es) (ht : Supported es) :
    (∀ o v, binding ctx es = some (o, v) →
      ∃ es', resolveSymbol ctx es = (es', 0) ∧
        ∀ ft w, applyEs ft pdlm es' w =
          processWriteData ft (dlmLoadBase pdlm + es.rela.rOffset)
            (wordOf (dlmLoadBase (o.getD pdlm) + (v + addendOf es))) w) ∧
    ((resolveSymbol ctx es).2 ≠ 0 ↔ binding ctx es = none) := by
  refine ⟨fun o v hb => ⟨_, resolveSymbol_of_binding h ht hb, fun ft w => rfl⟩, ?_,
    resolveSymbol_of_no_binding h⟩
  intro hne
  cases hb : binding ctx es with
  | none => rfl
  | some b => exact absurd (congrArg Prod.snd (resolveSymbol_of_binding h ht hb)) hne

/-- A program, the target and a library.  The library defines `f`, and so does
the patch. -/
def bindingCtx : Ctx :=
  let symF : Sym := { stName := 1, name := some "f", stValue := 0x500, stSize := 8 }
  let program : DlMap := { id := 0, path := some "prog", ei := { eType := .exec } }
  let target : DlMap := { id := 1, path := some "libt.so", ei := {} }
  let library : DlMap := { id := 2, path := some "libc.so", ei := { dynsym := some [symF] } }
  { patchfile := "p.so", patchEi := {}, vmas := [], dlMaps := [program, target, library],
    neededList := [program, target, library], targetDlm := target,
    pi := { targetBid := "t", patchBid := "p" } }

/-- The symbol `f` of the patch, for a `R_X86_64_64` relocation. -/
def bindingEs : ExternSymbol :=
  { name := "f", rela := { rOffset := 0x3000, rInfo := 0x100000001, rAddend := 4 },
    sym := { stName := 1, name := some "f", stValue := 0x40, stSize := 8 } }

theorem bindingCtx_ok : BindingOk bindingCtx bindingEs where
  needed := by
    intro dlm hdlm
    simp only [bindingCtx, List.mem_cons, List.not_mem_nil, or_false] at hdlm
    rcases hdlm with rfl | rfl | rfl <;> constructor <;> simp
  manual := ⟨List.nodup_nil, fun _ h => by cases h⟩
  global := ⟨List.nodup_nil, fun _ h => by cases h⟩
  own := by decide

/-- The patch comes before the library, so `f` is bound to the patch. -/
theorem resolveSymbol_applyEs_binds_patch :
    binding bindingCtx bindingEs = some (none, 0x40) ∧
      (resolveSymbol bindingCtx bindingEs).2 = 0 ∧
      ∃ es', resolveSymbol bindingCtx bindingEs = (es', 0) ∧
        ∀ ft w, applyEs ft bindingCtx.targetDlm es' w =
          processWriteData ft 0x3000 (wordOf 0x44) w := by
  have hb : binding bindingCtx bindingEs = some (none, 0x40) := rfl
  have hmain := resolveSymbol_applyEs_binds bindingCtx bindingEs bindingCtx.targetDlm bindingCtx_ok
    (by decide)
  obtain ⟨es', hes, hw⟩ := hmain.1 none 0x40 hb
  exact ⟨hb, by rw [hes], es', hes, hw⟩

end Nsb
