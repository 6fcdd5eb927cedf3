import Nsb.Patcher.Binding

/-!
# Which relocations are carried out

Every entry of `.rela.plt` and `.rela.dyn` should end in a written slot or in a
reported failure.  Entries get lost in three places.  `collect_relocations`
ignores the error of a section, and the list of that section is freed then.
`collect_es` skips entries whose symbol has no name, which are all the
`R_X86_64_RELATIVE` ones.  `resolve_es` takes a weak symbol without a value for
an undefined one.

A symbol of type `STT_GNU_IFUNC` is the one way in which an entry that gets
through has a wrong value: its value is what a resolver function returns, and
nsb writes the address of the resolver.

`keptRelocs` are the entries that get through.  What a slot should hold is stated
with `binding`, the reference lookup, and not with what `resolve_symbol` finds.
`relocations_complete_iff` says when nothing is lost: a failure is reported, or
every entry that needs a value gets through and has no resolver to call.
-/

namespace Nsb

/-! ## What an entry asks for -/

/-- The symbol of an entry. -/
def symOf (ei : ElfInfo) (rela : Rela) : Option Sym :=
  ei.dynsym.bind fun syms => syms[(gelfRSym rela).toNat]?

/-- The type of an entry. -/
def relaType (rela : Rela) : BitVec 32 := rela.rInfo.setWidth 32

/-- A symbol that is weak and undefined. -/
def Sym.WeakUndefined (sym : Sym) : Prop := sym.stInfo >>> 4 = STB_WEAK ∧ sym.stShndx = 0

/-- The entries whose slot needs a value. -/
def NeedsValue (ei : ElfInfo) (rela : Rela) : Prop :=
  relaType rela ≠ R_X86_64_NONE ∧ ∀ sym, symOf ei rela = some sym → ¬ sym.WeakUndefined

/-- `STT_GNU_IFUNC`. -/
def STT_GNU_IFUNC : BitVec 8 := 10

/-- The value of the symbol is that of a resolver function. -/
def Sym.isIfunc (sym : Sym) : Bool := sym.stInfo &&& 0xf == STT_GNU_IFUNC

/-- The symbol that an object of the search list defines; for the patch it is the
symbol of the entry. -/
def definitionIn (es : ExternSymbol) : Option DlMap → Option Sym
  | none => some es.sym
  | some dlm => (dlm.ei.dynsym.getD []).find? fun sym => sym.Defines es.name

/-- The symbol has a mark, which gives an address and no type. -/
def isMarked (ctx : Ctx) (es : ExternSymbol) : Bool :=
  (markOf ctx.pi.manualSyms es).isSome ||
    targetIsExecutable ctx && (markOf ctx.pi.globalSyms es).isSome

/-- The reference lookup ends at the symbol of a resolver function. -/
def bindsIfunc (ctx : Ctx) (es : ExternSymbol) : Bool :=
  !isMarked ctx es && (binding ctx es).any fun b => (definitionIn es b.1).any Sym.isIfunc

/-- The address that the reference lookup gives, without a call of a resolver. -/
def boundAddress (ctx : Ctx) (pdlm : DlMap) (es : ExternSymbol) : Option (BitVec 64) :=
  (binding ctx es).map fun b => dlmLoadBase (b.1.getD pdlm) + b.2

section

variable (resolver : BitVec 64 → BitVec 64)

/-- The symbol address `S` of an entry.  A symbol without a name is one of the
patch.  For a resolver function it is what that returns. -/
def psabiSymbol (ctx : Ctx) (pdlm : DlMap) (rela : Rela) : Option (BitVec 64) :=
  (symOf ctx.patchEi rela).bind fun sym =>
    if sym.stName = 0 then
      if sym.stShndx = 0 then some 0
      else if sym.isIfunc then some (resolver (dlmLoadBase pdlm + sym.stValue))
      else some (dlmLoadBase pdlm + sym.stValue)
    else sym.name.bind fun name =>
      let es : ExternSymbol := { name := name, rela := rela, sym := sym }
      if bindsIfunc ctx es then (boundAddress ctx pdlm es).map resolver
      else boundAddress ctx pdlm es

/-- The value that the psABI gives to the slot of an entry, for the types that
have one. -/
def psabiValue (ctx : Ctx) (pdlm : DlMap) (rela : Rela) : Option (BitVec 64) :=
  if relaType rela = R_X86_64_RELATIVE then some (dlmLoadBase pdlm + rela.rAddend)
  else if relaType rela = R_X86_64_GLOB_DAT ∨ relaType rela = R_X86_64_JUMP_SLOT then
    psabiSymbol resolver ctx pdlm rela
  else if relaType rela = R_X86_64_64 then
    (psabiSymbol resolver ctx pdlm rela).map fun s => s + rela.rAddend
  else none

end

/-- The entries of both sections. -/
def relaEntries (ei : ElfInfo) : List Rela := ei.relaPlt.entries ++ ei.relaDyn.entries

/-- The writes between two states. -/
def writesSince (w w' : World) : List (Addr × Word) := w'.writes.drop w.writes.length

/-- When the three functions return zero, the slot of every entry that needs a
value has been written with it. -/
def RelocationsComplete (resolver : BitVec 64 → BitVec 64) (ft : Faults) (ctx : Ctx)
    (pdlm : DlMap) (w : World) : Prop :=
  let collected := collectRelocations ctx.patchEi
  let resolved := resolveRelocations ctx collected.1
  let applied := applyRelocations ft pdlm resolved.1 w
  collected.2 = 0 → resolved.2 = 0 → applied.2 = 0 →
    ∀ rela ∈ relaEntries ctx.patchEi, NeedsValue ctx.patchEi rela →
      ∃ v, psabiValue resolver ctx pdlm rela = some v ∧
        (dlmLoadBase pdlm + rela.rOffset, wordOf v) ∈ writesSince w applied.1

/-! ## Collecting -/

/-- The calls that read an entry succeed. -/
def entryReadable (ei : ElfInfo) (scn : RelaScn) (i : Nat) (rela : Rela) : Bool :=
  scn.getrela i &&
    match symOf ei rela with
    | none => false
    | some sym => sym.stName == 0 || sym.name.isSome && scn.alloc i

/-- The calls that read the entries from the `i`-th on succeed. -/
def entriesReadable (ei : ElfInfo) (scn : RelaScn) : Nat → List Rela → Bool
  | _, [] => true
  | i, rela :: l => entryReadable ei scn i rela && entriesReadable ei scn (i + 1) l

/-- A section can be read to its end. -/
def scnReadable (ei : ElfInfo) (scn : RelaScn) : Bool :=
  scn.err == 0 && entriesReadable ei scn 0 scn.entries

/-- The entry with its symbol, if that has a name. -/
def esOf (ei : ElfInfo) (rela : Rela) : Option ExternSymbol :=
  (symOf ei rela).bind fun sym =>
    if sym.stName = 0 then none
    else sym.name.map fun name => { name := name, rela := rela, sym := sym }

theorem collectEs_of_readable {ei : ElfInfo} {scn : RelaScn} {i : Nat} {rela : Rela}
    (h : entryReadable ei scn i rela = true) (head : List ExternSymbol) :
    collectEs ei scn i rela head = (head ++ (esOf ei rela).toList, 0) := by
  rw [entryReadable, symOf] at h
  rw [collectEs, esOf, symOf]
  cases hd : ei.dynsym with
  | none => simp [hd] at h
  | some syms =>
      cases hs : syms[(gelfRSym rela).toNat]? with
      | none => simp [hd, hs] at h
      | some sym =>
          simp only [Option.bind_some, hs]
          by_cases hn : sym.stName = 0
          · rw [if_pos hn, if_pos hn]
            simp
          · have hn' : (sym.stName == 0) = false := beq_false_of_ne hn
            simp only [hd, Option.bind_some, hs, hn', Bool.false_or, Bool.and_eq_true] at h
            obtain ⟨name, hname⟩ := Option.isSome_iff_exists.mp h.2.1
            rw [if_neg hn, if_neg hn, hname]
            simp [h.2.2]

theorem collectEs_of_not_readable {ei : ElfInfo} {scn : RelaScn} {i : Nat} {rela : Rela}
    (hg : scn.getrela i = true) (h : entryReadable ei scn i rela = false)
    (head : List ExternSymbol) : (collectEs ei scn i rela head).2 ≠ 0 := by
  rw [entryReadable, symOf] at h
  rw [collectEs]
  cases hd : ei.dynsym with
  | none => exact (by decide : (-EINVAL : Int) ≠ 0)
  | some syms =>
      cases hs : syms[(gelfRSym rela).toNat]? with
      | none => simp only [hs]; decide
      | some sym =>
          simp only [hg, hd, Option.bind_some, hs, Bool.true_and, Bool.or_eq_false_iff] at h
          have hn : sym.stName ≠ 0 := fun hc => by simp [hc] at h
          simp only [hs, if_neg hn]
          cases hname : sym.name with
          | none => exact (by decide : (-EINVAL : Int) ≠ 0)
          | some name =>
              have ha : scn.alloc i = false := by simpa [hname] using h.2
              simp only [ha, Bool.false_eq_true, if_false]
              decide

theorem iterRela_of_readable {ei : ElfInfo} {scn : RelaScn} :
    ∀ {l : List Rela} {i : Nat} (head : List ExternSymbol), entriesReadable ei scn i l = true →
      iterRela ei scn i l head = (head ++ l.filterMap (esOf ei), 0)
  | [], _, _, _ => by simp [iterRela]
  | rela :: l, i, head, h => by
      obtain ⟨he, hl⟩ := Bool.and_eq_true_iff.mp h
      have hg : scn.getrela i = true := (Bool.and_eq_true_iff.mp he).1
      have hrest := iterRela_of_readable (head ++ (esOf ei rela).toList) hl
      simp only [iterRela, hg, Bool.not_true, Bool.false_eq_true, if_false,
        collectEs_of_readable he, ne_eq, not_true_eq_false, hrest, List.filterMap_cons]
      cases esOf ei rela <;> simp

theorem iterRela_of_not_readable {ei : ElfInfo} {scn : RelaScn} :
    ∀ {l : List Rela} {i : Nat} (head : List ExternSymbol), entriesReadable ei scn i l = false →
      (iterRela ei scn i l head).2 ≠ 0
  | [], _, _, h => by cases h
  | rela :: l, i, head, h => by
      by_cases hg : scn.getrela i = true
      · cases he : entryReadable ei scn i rela with
        | true =>
            have hl : entriesReadable ei scn (i + 1) l = false := by
              simpa [entriesReadable, he] using h
            simpa [iterRela, hg, collectEs_of_readable he] using
              iterRela_of_not_readable (head ++ (esOf ei rela).toList) hl
        | false =>
            have hne := collectEs_of_not_readable hg he head
            simp [iterRela, hg, hne]
      · simp [iterRela, hg, EINVAL]

/-- A section gives the entries with named symbols if it can be read to its end,
and nothing otherwise. -/
theorem elfRela_list (ei : ElfInfo) (scn : RelaScn) :
    (elfRela ei scn).1 = if scnReadable ei scn then scn.entries.filterMap (esOf ei) else [] := by
  rw [elfRela, elfCollectRela, scnReadable]
  by_cases he : scn.err = 0
  · cases hr : entriesReadable ei scn 0 scn.entries with
    | true =>
        have hi := iterRela_of_readable [] hr
        simp [he, hi]
    | false =>
        have hne := iterRela_of_not_readable [] hr
        simp [he, hne]
  · simp [he]

/-! ## Resolving -/

/-- The symbols that `resolve_es` takes out of the list. -/
def weakSkip (es : ExternSymbol) : Bool := elfWeakSym es && es.sym.stValue == 0

/-- The entries of a section that get through. -/
def keptEs (ei : ElfInfo) (scn : RelaScn) : List ExternSymbol :=
  if scnReadable ei scn then (scn.entries.filterMap (esOf ei)).filter fun es => !weakSkip es else []

/-- The entries of both sections that get through. -/
def keptRelocs (ei : ElfInfo) : List ExternSymbol := keptEs ei ei.relaPlt ++ keptEs ei ei.relaDyn

/-- The lookup ends in a way that `resolve_symbol` returns zero for: with a
value, or with a negative number whose low 32 bits are zero. -/
def Resolves (ctx : Ctx) (es : ExternSymbol) : Prop :=
  0 ≤ (findDynSym ctx es).2 ∧ Supported es ∨
    (findDynSym ctx es).2 < 0 ∧ BitVec.ofInt 32 (findDynSym ctx es).2 = 0

/-- What `apply_es` writes for an entry that resolves. -/
def slotValue (ctx : Ctx) (pdlm : DlMap) (es : ExternSymbol) : BitVec 64 :=
  dlmLoadBase ((findDynSym ctx es).1.dlm.getD pdlm) +
    if (findDynSym ctx es).2 < 0 then es.address
    else BitVec.ofInt 64 (findDynSym ctx es).2 + addendOf es

theorem checkMarkedSymbols_fst (ctx : Ctx) (es : ExternSymbol) :
    ∀ l, ∃ dlm, (checkMarkedSymbols ctx es l).1 = { es with dlm := dlm }
  | [] => ⟨es.dlm, rfl⟩
  | ms :: l => by
      rw [checkMarkedSymbols]
      by_cases hi : ms.idx = esRSym es
      · exact ⟨some ctx.targetDlm, by rw [if_pos hi]⟩
      · rw [if_neg hi]
        exact checkMarkedSymbols_fst ctx es l

theorem findDymSymLoop_fst (stop : Option DlMap) (own : BitVec 64) (es : ExternSymbol) :
    ∀ deps, ∃ dlm, (findDymSymLoop stop own es deps).1 = { es with dlm := dlm }
  | [] => ⟨es.dlm, rfl⟩
  | dlm :: deps => by
      rw [findDymSymLoop]
      split
      · exact ⟨es.dlm, rfl⟩
      · dsimp only
        split
        · exact ⟨es.dlm, rfl⟩
        · split
          · exact ⟨some dlm, rfl⟩
          · exact findDymSymLoop_fst stop own es deps

theorem searchNeeded_fst (ctx : Ctx) (es : ExternSymbol) :
    ∃ dlm, (searchNeeded ctx es).1 = { es with dlm := dlm } := by
  rw [searchNeeded, findDymSym]
  obtain ⟨dlm, h⟩ := findDymSymLoop_fst (some ctx.targetDlm) es.sym.stValue
    { es with dlm := none } ctx.neededList
  dsimp only
  split
  · exact ⟨dlm, h⟩
  · rw [h]
    exact findDymSymLoop_fst none es.sym.stValue { es with dlm := none } ctx.neededList

/-- The lookup changes the object of a symbol only. -/
theorem findDynSym_fst (ctx : Ctx) (es : ExternSymbol) :
    ∃ dlm, (findDynSym ctx es).1 = { es with dlm := dlm } := by
  obtain ⟨dlm₁, h₁⟩ := checkMarkedSymbols_fst ctx es ctx.pi.manualSyms
  unfold findDynSym checkManualSymbols checkGlobalSymbols
  dsimp only
  rw [h₁]
  split
  · exact ⟨dlm₁, rfl⟩
  · split
    · obtain ⟨dlm₂, h₂⟩ := checkMarkedSymbols_fst ctx { es with dlm := dlm₁ } ctx.pi.globalSyms
      rw [h₂]
      split
      · exact ⟨dlm₂, rfl⟩
      · exact searchNeeded_fst ctx { es with dlm := dlm₂ }
    · exact searchNeeded_fst ctx { es with dlm := dlm₁ }

theorem elfRelocSym_of_not_supported {es : ExternSymbol} (h : ¬ Supported es)
    (address : BitVec 64) : elfRelocSym es address = (es, -ENOTSUP) := by
  rw [elfRelocSym]
  rw [if_neg (fun hc => h (hc.imp_right .inl)), if_neg (fun hc => h (.inr (.inr hc)))]

/-- What `resolve_symbol` leaves in a symbol that resolves. -/
theorem resolveSymbol_of_resolves {ctx : Ctx} {es : ExternSymbol} (h : Resolves ctx es)
    (pdlm : DlMap) :
    (resolveSymbol ctx es).2 = 0 ∧ (resolveSymbol ctx es).1.rela = es.rela ∧
      dlmLoadBase ((resolveSymbol ctx es).1.dlm.getD pdlm) + (resolveSymbol ctx es).1.address =
        slotValue ctx pdlm es := by
  obtain ⟨dlm, hfst⟩ := findDynSym_fst ctx es
  rw [resolveSymbol, slotValue]
  dsimp only
  cases h with
  | inl h =>
      have hneg : ¬ (findDynSym ctx es).2 < 0 := Int.not_lt.mpr h.1
      have hs : Supported { es with dlm := dlm } := h.2
      rw [if_neg hneg, if_neg hneg, hfst, elfRelocSym_of_supported hs]
      exact ⟨rfl, rfl, rfl⟩
  | inr h =>
      rw [if_pos h.1, if_pos h.1, hfst, h.2]
      exact ⟨rfl, rfl, rfl⟩

theorem resolveSymbol_of_not_resolves {ctx : Ctx} {es : ExternSymbol} (h : ¬ Resolves ctx es) :
    (resolveSymbol ctx es).2 ≠ 0 := by
  obtain ⟨dlm, hfst⟩ := findDynSym_fst ctx es
  rw [resolveSymbol]
  dsimp only
  by_cases hneg : (findDynSym ctx es).2 < 0
  · rw [if_pos hneg]
    intro hz
    refine h (.inr ⟨hneg, ?_⟩)
    rw [← BitVec.toInt_inj]
    exact hz
  · have hs : ¬ Supported { es with dlm := dlm } := fun hs => h (.inl ⟨Int.not_lt.mp hneg, hs⟩)
    rw [if_neg hneg, hfst, elfRelocSym_of_not_supported hs]
    simp [ENOTSUP]

theorem resolveEs_skip (ctx : Ctx) {es : ExternSymbol} (h : weakSkip es = true) :
    resolveEs ctx es () = (none, (), 0) := if_pos h

theorem resolveEs_keep {ctx : Ctx} {es : ExternSymbol} (h : ¬ weakSkip es = true)
    (hr : Resolves ctx es) : resolveEs ctx es () = (some (resolveSymbol ctx es).1, (), 0) := by
  have hret := (resolveSymbol_of_resolves hr ctx.targetDlm).1
  rw [weakSkip] at h
  rw [resolveEs, if_neg h]
  simp [hret]

theorem resolveEs_fail {ctx : Ctx} {es : ExternSymbol} (h : ¬ weakSkip es = true)
    (hr : ¬ Resolves ctx es) : (resolveEs ctx es ()).2.2 ≠ 0 := by
  have hret := resolveSymbol_of_not_resolves hr
  rw [weakSkip] at h
  rw [resolveEs, if_neg h]
  simp [hret, ENOENT]

theorem resolveEs_ret_eq_zero {ctx : Ctx} {l : List ExternSymbol} :
    (∀ es ∈ l, (resolveEs ctx es ()).2.2 = 0) ↔
      ∀ es ∈ l.filter (fun es => !weakSkip es), Resolves ctx es := by
  constructor
  · intro h es hes
    obtain ⟨hmem, hk⟩ := List.mem_filter.mp hes
    by_contra hr
    exact resolveEs_fail (by simpa using hk) hr (h es hmem)
  · intro h es hes
    by_cases hk : weakSkip es = true
    · rw [resolveEs_skip ctx hk]
    · rw [resolveEs_keep hk (h es (List.mem_filter.mpr ⟨hes, by simpa using hk⟩))]

theorem filterMap_resolveEs {ctx : Ctx} :
    ∀ {l : List ExternSymbol}, (∀ es ∈ l.filter (fun es => !weakSkip es), Resolves ctx es) →
      (l.filterMap fun es => (resolveEs ctx es ()).1) =
        (l.filter fun es => !weakSkip es).map fun es => (resolveSymbol ctx es).1
  | [], _ => rfl
  | es :: l, h => by
      by_cases hk : weakSkip es = true
      · have hl : (es :: l).filter (fun es => !weakSkip es) = l.filter fun es => !weakSkip es :=
          List.filter_cons_of_neg (by simp [hk])
        rw [hl] at h ⊢
        rw [List.filterMap_cons, resolveEs_skip ctx hk, filterMap_resolveEs h]
      · have hl : (es :: l).filter (fun es => !weakSkip es) =
            es :: l.filter fun es => !weakSkip es := List.filter_cons_of_pos (by simp [hk])
        rw [hl] at h ⊢
        rw [List.filterMap_cons, resolveEs_keep hk (h es (List.mem_cons_self ..)),
          filterMap_resolveEs fun e he => h e (List.mem_cons_of_mem _ he), List.map_cons]

theorem keptEs_eq (ei : ElfInfo) (scn : RelaScn) :
    keptEs ei scn = (elfRela ei scn).1.filter fun es => !weakSkip es := by
  rw [elfRela_list, keptEs]
  split <;> rfl

/-- `resolve_relocations` succeeds when everything that got through resolves. -/
theorem resolveRelocations_ok {ctx : Ctx} (h : ∀ es ∈ keptRelocs ctx.patchEi, Resolves ctx es) :
    (resolveRelocations ctx (collectRelocations ctx.patchEi).1).2 = 0 ∧
      (resolveRelocations ctx (collectRelocations ctx.patchEi).1).1.1 ++
        (resolveRelocations ctx (collectRelocations ctx.patchEi).1).1.2 =
        (keptRelocs ctx.patchEi).map fun es => (resolveSymbol ctx es).1 := by
  have hsplit := List.forall_mem_append.mp h
  rw [keptEs_eq, keptEs_eq] at hsplit
  have hp := resolveEs_ret_eq_zero.mpr hsplit.1
  have hd := resolveEs_ret_eq_zero.mpr hsplit.2
  have hp0 := Loop.eachSafe_ret_eq_zero.mpr hp
  have hd0 := Loop.eachSafe_ret_eq_zero.mpr hd
  have hpl := Loop.eachSafe_list hp
  have hdl := Loop.eachSafe_list hd
  rw [filterMap_resolveEs hsplit.1] at hpl
  rw [filterMap_resolveEs hsplit.2] at hdl
  rw [resolveRelocations, collectRelocations, elfRelaPlt, elfRelaDyn]
  simp only [hp0, ne_eq, not_true_eq_false, if_false, hd0, hpl, hdl, keptRelocs, keptEs_eq,
    List.map_append, and_self]

theorem resolveRelocations_error {ctx : Ctx}
    (h : ∃ es ∈ keptRelocs ctx.patchEi, ¬ Resolves ctx es) :
    (resolveRelocations ctx (collectRelocations ctx.patchEi).1).2 ≠ 0 := by
  intro hret
  obtain ⟨es, hes, hr⟩ := h
  rw [resolveRelocations, collectRelocations, elfRelaPlt, elfRelaDyn] at hret
  dsimp only at hret
  by_cases hp0 :
      (Loop.eachSafe (resolveEs ctx) (elfRela ctx.patchEi ctx.patchEi.relaPlt).1 ()).2.2 = 0
  · rw [if_neg (not_not_intro hp0)] at hret
    have hp := resolveEs_ret_eq_zero.mp (Loop.eachSafe_ret_eq_zero.mp hp0)
    have hd := resolveEs_ret_eq_zero.mp (Loop.eachSafe_ret_eq_zero.mp hret)
    rw [keptRelocs, keptEs_eq, keptEs_eq] at hes
    cases List.mem_append.mp hes with
    | inl he => exact hr (hp es he)
    | inr he => exact hr (hd es he)
  · rw [if_pos hp0] at hret
    exact hp0 hret

/-! ## Applying -/

theorem map_esWrite {ctx : Ctx} {pdlm : DlMap} {l : List ExternSymbol}
    (h : ∀ es ∈ l, Resolves ctx es) :
    (l.map fun es => (resolveSymbol ctx es).1).map (esWrite pdlm) =
      l.map fun es => (slotOf pdlm es.rela, wordOf (slotValue ctx pdlm es)) := by
  rw [List.map_map]
  refine List.map_congr_left fun es hes => ?_
  obtain ⟨-, hrela, hval⟩ := resolveSymbol_of_resolves (h es hes) pdlm
  simp only [Function.comp_apply, esWrite, hrela, hval]

/-! ## The reference lookup -/

/-- The symbol of an entry is bound to something and its type is one that nsb
supports. -/
def Bound (ctx : Ctx) (es : ExternSymbol) : Prop := Supported es ∧ (binding ctx es).isSome

/-- A symbol resolves when it is bound. -/
theorem resolves_iff {ctx : Ctx} {es : ExternSymbol} (h : BindingOk ctx es) :
    Resolves ctx es ↔ Bound ctx es := by
  rw [Resolves, Bound, findDynSym_eq h]
  cases hb : binding ctx es with
  | none => simp [ENOENT]
  | some b =>
      have hv : ¬ b.2.toInt < 0 := toInt_nonneg (binding_value h hb)
      simp [hv, Int.not_lt.mp hv]

/-- What is written for a symbol is the address that it is bound to and the
addend. -/
theorem slotValue_eq {ctx : Ctx} {es : ExternSymbol} (h : BindingOk ctx es) {pdlm : DlMap}
    {a : BitVec 64} (ha : boundAddress ctx pdlm es = some a) :
    slotValue ctx pdlm es = a + addendOf es := by
  obtain ⟨⟨o, v⟩, hb, rfl⟩ := Option.map_eq_some_iff.mp ha
  have hv : ¬ v.toInt < 0 := toInt_nonneg (binding_value h hb)
  rw [slotValue, findDynSym_eq h, hb]
  simp [hv, BitVec.add_assoc]

/-! ## Nothing is lost -/

/-- A failure is reported: something that got through is not bound, or a write
fails. -/
def FailureReported (ft : Faults) (ctx : Ctx) (w : World) : Prop :=
  (∃ es ∈ keptRelocs ctx.patchEi, ¬ Bound ctx es) ∨
    ∃ k < (keptRelocs ctx.patchEi).length, ft.write (w.nwrite + k) ≠ 0

/-- The slot of an entry is looked after.  The entry got through and its symbol
is not that of a resolver function, or another one that got through has the same
slot and is bound to the value of this one. -/
inductive CarriedOut (resolver : BitVec 64 → BitVec 64) (ctx : Ctx) (pdlm : DlMap) (rela : Rela) :
    Prop where
  | kept (es : ExternSymbol) (hes : es ∈ keptRelocs ctx.patchEi) (hrela : es.rela = rela)
      (hplain : bindsIfunc ctx es = false)
  | doubled (es : ExternSymbol) (hes : es ∈ keptRelocs ctx.patchEi)
      (hslot : es.rela.rOffset = rela.rOffset) (a : BitVec 64)
      (ha : boundAddress ctx pdlm es = some a)
      (hvalue : psabiValue resolver ctx pdlm rela = some (a + addendOf es))

section

variable {ft : Faults} {ctx : Ctx} {w : World}
  (hok : ∀ es ∈ keptRelocs ctx.patchEi, BindingOk ctx es)
include hok

/-- The pipeline when no failure is reported. -/
theorem relocations_writes (pdlm : DlMap) (h : ¬ FailureReported ft ctx w) :
    (resolveRelocations ctx (collectRelocations ctx.patchEi).1).2 = 0 ∧
      (applyRelocations ft pdlm (resolveRelocations ctx (collectRelocations ctx.patchEi).1).1 w).2
        = 0 ∧
      writesSince w
        (applyRelocations ft pdlm (resolveRelocations ctx (collectRelocations ctx.patchEi).1).1 w).1
        = (keptRelocs ctx.patchEi).map
            fun es => (slotOf pdlm es.rela, wordOf (slotValue ctx pdlm es)) := by
  have hres : ∀ es ∈ keptRelocs ctx.patchEi, Resolves ctx es := by
    intro es hes
    by_contra hr
    exact h (.inl ⟨es, hes, fun hb => hr ((resolves_iff (hok es hes)).mpr hb)⟩)
  have hwr : CallsOk ft.write w.nwrite
      ((keptRelocs ctx.patchEi).map fun es => (resolveSymbol ctx es).1).length := by
    intro k hk
    rw [List.length_map] at hk
    by_contra hw
    exact h (.inr ⟨k, hk, hw⟩)
  obtain ⟨hret, hlist⟩ := resolveRelocations_ok hres
  have happ := each_write_ok (g := esWrite pdlm) hwr
  rw [applyRelocations_eq, hlist]
  refine ⟨hret, happ.1, ?_⟩
  have hw := happ.2.1
  rw [map_esWrite hres] at hw
  rw [writesSince]
  exact (congrArg (List.drop w.writes.length) hw).trans (List.drop_left ..)

theorem relocations_failure (pdlm : DlMap) (h : FailureReported ft ctx w)
    (hret : (resolveRelocations ctx (collectRelocations ctx.patchEi).1).2 = 0) :
    (applyRelocations ft pdlm (resolveRelocations ctx (collectRelocations ctx.patchEi).1).1 w).2
      ≠ 0 := by
  by_cases hres : ∃ es ∈ keptRelocs ctx.patchEi, ¬ Resolves ctx es
  · exact absurd hret (resolveRelocations_error hres)
  · have hall : ∀ es ∈ keptRelocs ctx.patchEi, Resolves ctx es := by
      intro es hes
      by_contra hr
      exact hres ⟨es, hes, hr⟩
    have hbound : ¬ ∃ es ∈ keptRelocs ctx.patchEi, ¬ Bound ctx es := by
      rintro ⟨es, hes, hb⟩
      exact hb ((resolves_iff (hok es hes)).mp (hall es hes))
    obtain ⟨k, hk, hne⟩ := h.resolve_left hbound
    rw [applyRelocations_eq, (resolveRelocations_ok hall).2]
    refine each_write_error (g := esWrite pdlm) fun hw => hne (hw k ?_)
    rw [List.length_map]
    exact hk

end

theorem esOf_of_kept {ei : ElfInfo} {es : ExternSymbol} (h : es ∈ keptRelocs ei) :
    esOf ei es.rela = some es ∧ es.rela ∈ relaEntries ei := by
  have hscn : ∀ scn, es ∈ keptEs ei scn → esOf ei es.rela = some es ∧ es.rela ∈ scn.entries := by
    intro scn hes
    rw [keptEs] at hes
    split at hes
    · obtain ⟨rela, hmem, hr⟩ := List.mem_filterMap.mp (List.mem_filter.mp hes).1
      have hrela : es.rela = rela := by
        obtain ⟨sym, -, hs⟩ := Option.bind_eq_some_iff.mp hr
        split at hs
        · cases hs
        · obtain ⟨name, -, he⟩ := Option.map_eq_some_iff.mp hs
          rw [← he]
      rw [hrela]
      exact ⟨hr, hmem⟩
    · cases hes
  cases List.mem_append.mp h with
  | inl hp => exact ⟨(hscn _ hp).1, List.mem_append_left _ (hscn _ hp).2⟩
  | inr hd => exact ⟨(hscn _ hd).1, List.mem_append_right _ (hscn _ hd).2⟩

/-- What is written belongs to an entry of the file. -/
theorem resolveRelocations_rela {ctx : Ctx} {relas : List ExternSymbol × List ExternSymbol}
    (h : resolveRelocations ctx (collectRelocations ctx.patchEi).1 = (relas, 0)) {es : ExternSymbol}
    (hes : es ∈ relas.1 ++ relas.2) : es.rela ∈ relaEntries ctx.patchEi := by
  have hall : ∀ es ∈ keptRelocs ctx.patchEi, Resolves ctx es := by
    intro e he
    by_contra hn
    exact resolveRelocations_error ⟨e, he, hn⟩ (by rw [h])
  have hlist := (resolveRelocations_ok hall).2
  rw [h] at hlist
  rw [hlist] at hes
  obtain ⟨e, he, rfl⟩ := List.mem_map.mp hes
  rw [(resolveSymbol_of_resolves (hall e he) ctx.targetDlm).2.1]
  exact (esOf_of_kept he).2

/-- The symbol address of an entry that got through, if it is not that of a
resolver function. -/
theorem psabiSymbol_of_kept (resolver : BitVec 64 → BitVec 64) {ctx : Ctx} {es : ExternSymbol}
    (h : es ∈ keptRelocs ctx.patchEi) (hplain : bindsIfunc ctx es = false) (pdlm : DlMap) :
    psabiSymbol resolver ctx pdlm es.rela = boundAddress ctx pdlm es := by
  obtain ⟨sym, hsym, hs⟩ := Option.bind_eq_some_iff.mp (esOf_of_kept h).1
  rw [psabiSymbol]
  rw [hsym, Option.bind_some]
  split at hs
  · cases hs
  · obtain ⟨name, hname, he⟩ := Option.map_eq_some_iff.mp hs
    rw [if_neg ‹_›, hname, Option.bind_some]
    dsimp only
    rw [he, hplain, if_neg Bool.false_ne_true]

/-- An entry that got through and has no resolver to call is bound to its
value. -/
theorem psabiValue_of_kept (resolver : BitVec 64 → BitVec 64) {ctx : Ctx} {es : ExternSymbol}
    (h : es ∈ keptRelocs ctx.patchEi) (hplain : bindsIfunc ctx es = false) (hs : Supported es)
    {pdlm : DlMap} {a : BitVec 64} (ha : boundAddress ctx pdlm es = some a) :
    psabiValue resolver ctx pdlm es.rela = some (a + addendOf es) := by
  have htype : relaType es.rela = esRType es := rfl
  rw [psabiValue, addendOf, htype, psabiSymbol_of_kept resolver h hplain, ha]
  rw [Supported] at hs
  rcases hs with h | h | h
  · rw [h]; simp [R_X86_64_GLOB_DAT, R_X86_64_RELATIVE, R_X86_64_64]
  · rw [h]; simp [R_X86_64_GLOB_DAT, R_X86_64_JUMP_SLOT, R_X86_64_RELATIVE, R_X86_64_64]
  · rw [h]
    simp [R_X86_64_GLOB_DAT, R_X86_64_JUMP_SLOT, R_X86_64_RELATIVE, R_X86_64_64]

theorem Bound.address {ctx : Ctx} {es : ExternSymbol} (h : Bound ctx es) (pdlm : DlMap) :
    ∃ a, boundAddress ctx pdlm es = some a := by
  obtain ⟨b, hb⟩ := Option.isSome_iff_exists.mp h.2
  exact ⟨_, by rw [boundAddress, hb]; rfl⟩

/-- Nothing is lost exactly when a failure is reported or every entry that needs
a value is carried out. -/
theorem relocations_complete_iff (resolver : BitVec 64 → BitVec 64) (ft : Faults) (ctx : Ctx)
    (pdlm : DlMap) (w : World) (hok : ∀ es ∈ keptRelocs ctx.patchEi, BindingOk ctx es) :
    RelocationsComplete resolver ft ctx pdlm w ↔
      FailureReported ft ctx w ∨ ∀ rela ∈ relaEntries ctx.patchEi,
        NeedsValue ctx.patchEi rela → CarriedOut resolver ctx pdlm rela := by
  by_cases hf : FailureReported ft ctx w
  · refine ⟨fun _ => .inl hf, fun _ => ?_⟩
    intro _ hres happ
    exact absurd happ (relocations_failure hok pdlm hf hres)
  · obtain ⟨hres, happ, hw⟩ := relocations_writes hok pdlm hf
    have hbound : ∀ es ∈ keptRelocs ctx.patchEi, Bound ctx es := by
      intro es hes
      by_contra hb
      exact hf (.inl ⟨es, hes, hb⟩)
    constructor
    · intro h
      refine .inr fun rela hmem hneed => ?_
      obtain ⟨v, hv, hin⟩ := h rfl hres happ rela hmem hneed
      rw [hw] at hin
      obtain ⟨es, hes, heq⟩ := List.mem_map.mp hin
      obtain ⟨hslot, hval⟩ := Prod.mk.inj heq
      obtain ⟨a, ha⟩ := (hbound es hes).address pdlm
      rw [slotValue_eq (hok es hes) ha] at hval
      exact .doubled es hes (add_left_cancel hslot) a ha (by rw [hv, wordOf_inj hval])
    · intro h _ _ _ rela hmem hneed
      have hwritten : ∀ es ∈ keptRelocs ctx.patchEi, ∀ a, boundAddress ctx pdlm es = some a →
          (slotOf pdlm es.rela, wordOf (a + addendOf es)) ∈ writesSince w
            (applyRelocations ft pdlm
              (resolveRelocations ctx (collectRelocations ctx.patchEi).1).1 w).1 := by
        intro es hes a ha
        rw [hw, ← slotValue_eq (hok es hes) ha]
        exact List.mem_map.mpr ⟨es, hes, rfl⟩
      cases h.resolve_left hf rela hmem hneed with
      | kept es hes hrela hplain =>
          subst hrela
          obtain ⟨a, ha⟩ := (hbound es hes).address pdlm
          exact ⟨_, psabiValue_of_kept resolver hes hplain (hbound es hes).1 ha,
            hwritten es hes a ha⟩
      | doubled es hes hslot a ha hvalue =>
          refine ⟨_, hvalue, ?_⟩
          rw [← hslot]
          exact hwritten es hes a ha

/-- A program, the target and a library with `f`.  The patch calls `f`, has a
pointer to its own `g` and one behind it, an entry without a meaning and one for
`h`, which is weak and nowhere defined. -/
def callingCtx (fInfo : BitVec 8) : Ctx :=
  let symF : Sym := { stName := 1, name := some "f", stInfo := fInfo, stValue := 0x500,
                      stSize := 8 }
  let program : DlMap := { id := 0, path := some "prog", ei := { eType := .exec } }
  let target : DlMap := { id := 1, path := some "libt.so", ei := {} }
  let library : DlMap := { id := 2, path := some "libc.so", ei := { dynsym := some [symF] }
                           execVma := some { addr := 0x700000, length := 0x1000, prot := 5 } }
  { patchfile := "p.so", vmas := [], dlMaps := [program, target, library]
    neededList := [program, target, library], targetDlm := target
    pi := { targetBid := "t", patchBid := "p" }
    patchEi :=
      { dynsym := some
          [{ stName := 0, name := some "", stInfo := 0, stValue := 0, stSize := 0 },
           { stName := 1, name := some "f", stValue := 0, stSize := 0 },
           { stName := 3, name := some "g", stShndx := 9, stValue := 0x40, stSize := 8 },
           { stName := 5, name := some "h", stInfo := 0x20, stValue := 0, stSize := 0 }]
        relaPlt := { entries := [{ rOffset := 0x3000, rInfo := 0x100000007, rAddend := 0 }] }
        relaDyn := { entries := [{ rOffset := 0x3008, rInfo := 0x200000006, rAddend := 0 },
                                 { rOffset := 0x3010, rInfo := 0x200000001, rAddend := 4 },
                                 { rOffset := 0x3018, rInfo := 0, rAddend := 0 },
                                 { rOffset := 0x3020, rInfo := 0x300000006, rAddend := 0 }] } } }

/-- The patch of `callingCtx`. -/
def callingPatch : DlMap :=
  { id := 3, path := some "p.so", ei := {}
    execVma := some { addr := 0x402000, length := 0x1000, prot := 5 } }

theorem callingCtx_ok (fInfo : BitVec 8) :
    ∀ es ∈ keptRelocs (callingCtx fInfo).patchEi, BindingOk (callingCtx fInfo) es := by
  have hneeded : ∀ dlm ∈ (callingCtx fInfo).neededList, SymtabOk dlm.ei := by
    intro dlm hdlm
    simp only [callingCtx, List.mem_cons, List.not_mem_nil, or_false] at hdlm
    rcases hdlm with rfl | rfl | rfl <;> constructor <;> simp
  intro es hes
  refine ⟨hneeded, ⟨List.nodup_nil, fun _ h => by cases h⟩, ⟨List.nodup_nil, fun _ h => by cases h⟩,
    ?_⟩
  have hsmall : ((keptRelocs (callingCtx fInfo).patchEi).all fun es =>
      decide (es.sym.stValue.toNat < 2 ^ 63)) = true := rfl
  exact of_decide_eq_true (List.all_eq_true.mp hsmall es hes)

/-- With an ordinary function `f` every slot that needs a value gets it. -/
theorem callingCtx_complete :
    (∀ es ∈ keptRelocs (callingCtx 0x12).patchEi, BindingOk (callingCtx 0x12) es) ∧
      RelocationsComplete (fun a => a + 0x10) {} (callingCtx 0x12) callingPatch
        { mem := fun _ => 0 } := by
  refine ⟨callingCtx_ok 0x12,
    (relocations_complete_iff _ {} _ callingPatch _ (callingCtx_ok 0x12)).mpr (.inr ?_)⟩
  intro rela hrela hneed
  simp only [relaEntries, callingCtx, List.cons_append, List.nil_append, List.mem_cons,
    List.not_mem_nil, or_false] at hrela
  rcases hrela with rfl | rfl | rfl | rfl | rfl
  · exact .kept _ (List.mem_cons_self ..) rfl rfl
  · exact .kept _ (List.mem_cons_of_mem _ (List.mem_cons_self ..)) rfl rfl
  · exact .kept _ (List.mem_cons_of_mem _ (List.mem_cons_of_mem _ (List.mem_cons_self ..))) rfl rfl
  · exact absurd rfl hneed.1
  · exact absurd ⟨rfl, rfl⟩ (hneed.2 _ rfl)

/-- With a resolver function `f` the slot for it gets the address of the
resolver. -/
example : ¬ RelocationsComplete (fun a => a + 0x10) {} (callingCtx 0x1a) callingPatch
    { mem := fun _ => 0 } := by
  intro h
  have hneed : NeedsValue (callingCtx 0x1a).patchEi
      { rOffset := 0x3000, rInfo := 0x100000007, rAddend := 0 } := by
    refine ⟨by decide, fun sym hsym => ?_⟩
    cases hsym
    exact fun hw => absurd hw.1 (by decide)
  obtain ⟨v, hv, hmem⟩ := h rfl rfl rfl _ (List.mem_cons_self ..) hneed
  cases hv
  revert hmem
  decide

/-- A patch whose only entry is a `R_X86_64_RELATIVE` one. -/
def relativeCtx : Ctx :=
  { patchfile := "p.so", vmas := [], dlMaps := [], pi := { targetBid := "t", patchBid := "p" },
    targetDlm := { id := 0, path := some "libt.so", ei := {} },
    patchEi :=
      { dynsym := some [{ stName := 0, name := some "", stInfo := 0, stValue := 0, stSize := 0 }]
        relaDyn := { entries := [{ rOffset := 0x3000, rInfo := 8, rAddend := 0x1234 }] } } }

/-- It is skipped for its symbol, which has no name, and its slot stays as it
was. -/
theorem relative_left_out :
    ¬ RelocationsComplete id {} relativeCtx { id := 1, path := some "p.so", ei := {} }
      { mem := fun _ => 0 } := by
  intro h
  have hneed : NeedsValue relativeCtx.patchEi
      { rOffset := 0x3000, rInfo := 8, rAddend := 0x1234 } := by
    refine ⟨by decide, fun sym hsym => ?_⟩
    cases hsym
    exact fun hw => absurd hw.1 (by decide)
  obtain ⟨v, -, hmem⟩ := h rfl rfl rfl _ (List.mem_singleton_self _) hneed
  cases hmem

end Nsb
