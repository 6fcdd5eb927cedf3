import Nsb.Patcher.Elf

/-!
# Relocations of the patch

`patcher/relocations.c`.  The relocations of the patch file are collected,
resolved to an object and a value, and written into the mapped patch.

`es->dlm` is NULL for a symbol that the patch itself defines.  `__find_dym_sym`
gets the target as stop element in its first pass and NULL in its second, which
no element equals.
-/

namespace Nsb

/-- `collect_relocations`: an error of `elf_rela_plt` or `elf_rela_dyn` is not
handed on. -/
def collectRelocations (ei : ElfInfo) : (List ExternSymbol × List ExternSymbol) × Int :=
  (((elfRelaPlt ei).1, (elfRelaDyn ei).1), 0)

/-! ## Resolving -/

/-- The loop of `__find_dym_sym`. -/
def findDymSymLoop (stop : Option DlMap) (patchValue : BitVec 64) (es : ExternSymbol) :
    List DlMap → ExternSymbol × Int
  | [] => (es, -ENOENT)
  | dlm :: deps =>
      if patchValue ≠ 0 ∧ stop.any (fun s => s.id == dlm.id) then (es, patchValue.toInt)
      else
        let value := elfDynSymValue dlm.ei es.name
        if value < 0 then (es, value)
        else if value ≠ 0 then ({ es with dlm := some dlm }, value)
        else findDymSymLoop stop patchValue es deps

/-- `__find_dym_sym`. -/
def findDymSym (deps : List DlMap) (stop : Option DlMap) (es : ExternSymbol)
    (patchValue : BitVec 64) : ExternSymbol × Int :=
  findDymSymLoop stop patchValue { es with dlm := none } deps

/-- `check_marked_symbols`. -/
def checkMarkedSymbols (ctx : Ctx) (es : ExternSymbol) : List MarkedSym → ExternSymbol × Int
  | [] => (es, 0)
  | ms :: l =>
      if ms.idx = esRSym es then ({ es with dlm := some ctx.targetDlm }, ms.addr.toInt)
      else checkMarkedSymbols ctx es l

/-- `check_manual_symbols`. -/
def checkManualSymbols (ctx : Ctx) (es : ExternSymbol) : ExternSymbol × Int :=
  checkMarkedSymbols ctx es ctx.pi.manualSyms

/-- `check_global_symbols`. -/
def checkGlobalSymbols (ctx : Ctx) (es : ExternSymbol) : ExternSymbol × Int :=
  checkMarkedSymbols ctx es ctx.pi.globalSyms

/-- `target_is_executable`. -/
def targetIsExecutable (ctx : Ctx) : Bool :=
  ctx.neededList.head?.any fun dlm => dlm.id == ctx.targetDlm.id

/-- The search of `find_dyn_sym` behind the marked symbols. -/
def searchNeeded (ctx : Ctx) (es : ExternSymbol) : ExternSymbol × Int :=
  let (es', value) := findDymSym ctx.neededList (some ctx.targetDlm) es es.sym.stValue
  if value ≠ -ENOENT then (es', value) else findDymSym ctx.neededList none es' es'.sym.stValue

/-- `find_dyn_sym`. -/
def findDynSym (ctx : Ctx) (es : ExternSymbol) : ExternSymbol × Int :=
  let (es, value) := checkManualSymbols ctx es
  if value ≠ 0 then (es, value)
  else if targetIsExecutable ctx then
    let (es, value) := checkGlobalSymbols ctx es
    if value ≠ 0 then (es, value) else searchNeeded ctx es
  else searchNeeded ctx es

/-- `resolve_symbol`.  It returns an `int`, so a negative value is cut to 32
bits. -/
def resolveSymbol (ctx : Ctx) (es : ExternSymbol) : ExternSymbol × Int :=
  let (es, value) := findDynSym ctx es
  if value < 0 then (es, (BitVec.ofInt 32 value).toInt)
  else
    let (es, err) := elfRelocSym es (BitVec.ofInt 64 value)
    if err < 0 then (es, err) else (es, 0)

/-- `resolve_es`: a weak symbol without a value leaves the list. -/
def resolveEs (ctx : Ctx) (es : ExternSymbol) (_ : Unit) : Option ExternSymbol × Unit × Int :=
  if elfWeakSym es && es.sym.stValue == 0 then (none, (), 0)
  else
    let (es, err) := resolveSymbol ctx es
    if err ≠ 0 then (some es, (), -ENOENT) else (some es, (), 0)

/-- `resolve_relocations`. -/
def resolveRelocations (ctx : Ctx) (relas : List ExternSymbol × List ExternSymbol) :
    (List ExternSymbol × List ExternSymbol) × Int :=
  let (plt, _, err) := Loop.eachSafe (resolveEs ctx) relas.1 ()
  if err ≠ 0 then ((plt, relas.2), err)
  else
    let (dyn, _, err) := Loop.eachSafe (resolveEs ctx) relas.2 ()
    ((plt, dyn), err)

/-! ## Applying -/

/-- `apply_es`. -/
def applyEs (ft : Faults) (pdlm : DlMap) (es : ExternSymbol) (w : World) : World × Int :=
  let dlm := es.dlm.getD pdlm
  let pltAddr := dlmLoadBase pdlm + es.rela.rOffset
  let funcAddr := dlmLoadBase dlm + es.address
  processWriteData ft pltAddr (wordOf funcAddr) w

/-- `apply_relocations`. -/
def applyRelocations (ft : Faults) (pdlm : DlMap)
    (relas : List ExternSymbol × List ExternSymbol) (w : World) : World × Int :=
  let (w, err) := Loop.each (applyEs ft pdlm) relas.1 w
  if err ≠ 0 then (w, err) else Loop.each (applyEs ft pdlm) relas.2 w

/-- The slot of an entry. -/
def slotOf (pdlm : DlMap) (rela : Rela) : Addr := dlmLoadBase pdlm + rela.rOffset

/-- What `apply_es` writes for a resolved symbol. -/
def esWrite (pdlm : DlMap) (es : ExternSymbol) : Addr × Word :=
  (slotOf pdlm es.rela, wordOf (dlmLoadBase (es.dlm.getD pdlm) + es.address))

/-- The two lists are gone through as one. -/
theorem applyRelocations_eq (ft : Faults) (pdlm : DlMap)
    (relas : List ExternSymbol × List ExternSymbol) (w : World) :
    applyRelocations ft pdlm relas w = Loop.each (applyEs ft pdlm) (relas.1 ++ relas.2) w := by
  rw [Loop.each_append, applyRelocations]
  dsimp only
  by_cases h : (Loop.each (applyEs ft pdlm) relas.1 w).2 = 0
  · rw [if_neg (not_not_intro h), if_pos h]
  · rw [if_pos h, if_neg h]

end Nsb
