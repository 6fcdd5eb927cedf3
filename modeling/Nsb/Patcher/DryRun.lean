import Nsb.Patcher.History

/-!
# Dry runs

With `--dry-run` nsb goes through all its steps and is not to change the process.
The flag is not tested in one place but in the functions that map, unmap and
write a jump.  `apply_es`, `write_static_ref` and `write_func_code` do not test it.

A dry run of `unpatch_process` restores the code of the functions whose jump is in
place.  A dry run of `patch_process` has mapped nothing, so its relocations and
static references go to the hole found for the patch.  No mapping is there, and on a
real process the first of these writes fails, which ends the run: this is a write
that `Faults.write` makes fail.  Where it does not fail the run writes.

The first of these writes decides.  It is made with the memory as it was, so whether
there is one can be told from the state before the run.
-/

namespace Nsb

/-- No byte was written and no mapping made or removed. -/
structure Untouched (w w' : World) : Prop where
  writes : w'.writes = w.writes
  mem : w'.mem = w.mem
  vmas : w'.vmas = w.vmas

theorem Untouched.refl (w : World) : Untouched w w := ⟨rfl, rfl, rfl⟩

theorem Untouched.trans {w₁ w₂ w₃ : World} (h : Untouched w₁ w₂) (h' : Untouched w₂ w₃) :
    Untouched w₁ w₃ :=
  ⟨h'.writes.trans h.writes, h'.mem.trans h.mem, h'.vmas.trans h.vmas⟩

/-- Reads do not count. -/
theorem untouched_nread (n : Nat) {w w' : World} :
    Untouched w w' ↔ Untouched { w with nread := n } w' :=
  ⟨fun h => ⟨h.writes, h.mem, h.vmas⟩, fun h => ⟨h.writes, h.mem, h.vmas⟩⟩

/-- A write cannot be taken back. -/
theorem not_untouched_of_lt {w w' : World} (h : w.writes.length < w'.writes.length) :
    ¬ Untouched w w' := by
  intro hu
  rw [hu.writes] at h
  exact absurd h (lt_irrefl _)

variable {ft : Faults} {ctx : Ctx} {pdlm : DlMap}

/-! ## Writes -/

/-- A call that writes when it succeeds and changes nothing when it fails. -/
def WritesOrFails (call : World → World × Int) : Prop :=
  ∀ w, ((call w).2 ≠ 0 ∧ Untouched w (call w).1) ∨
    ((call w).2 = 0 ∧ w.writes.length < (call w).1.writes.length)

theorem WritesOrFails.writes_le {call : World → World × Int} (h : WritesOrFails call) (w : World) :
    w.writes.length ≤ (call w).1.writes.length := by
  rcases h w with ⟨-, hu⟩ | ⟨-, hlt⟩
  · rw [hu.writes]
  · exact le_of_lt hlt

theorem processWriteData_writesOrFails (addr : Addr) (data : Word) :
    WritesOrFails (processWriteData ft addr data) := by
  intro w
  by_cases hw : ft.write w.nwrite = 0
  · rw [processWriteData_ok addr data hw]
    exact .inr ⟨rfl, by simp⟩
  · rw [processWriteData_error addr data hw]
    exact .inl ⟨by simpa using hw, rfl, rfl, rfl⟩

theorem applyEs_writesOrFails (es : ExternSymbol) : WritesOrFails (applyEs ft pdlm es) :=
  processWriteData_writesOrFails _ _

theorem applyStaticRef_writesOrFails (ss : StaticSym) :
    WritesOrFails (applyStaticRef ft ctx pdlm ss) := by
  intro w
  rcases applyStaticRef_cases ft ctx pdlm ss w with
    ⟨-, h⟩ | ⟨-, -, hr, h⟩ | ⟨-, -, -, data, h⟩ | ⟨-, -, data, h⟩
  · rw [h]
    exact .inl ⟨show (-EINVAL : Int) ≠ 0 by decide, .refl w⟩
  · rw [h]
    exact .inl ⟨by simpa using hr, rfl, rfl, rfl⟩
  · rw [h, untouched_nread (w.nread + 1)]
    exact processWriteData_writesOrFails (refOf pdlm ss) data { w with nread := w.nread + 1 }
  · rw [h]
    exact processWriteData_writesOrFails (refOf pdlm ss) data w

section

variable {α : Type} {f : α → World → World × Int} (hf : ∀ a, WritesOrFails (f a))
include hf

theorem each_writes_le (l : List α) (w : World) :
    w.writes.length ≤ (Loop.each f l w).1.writes.length := by
  refine Loop.each_inv (I := fun w' : World => w.writes.length ≤ w'.writes.length) ?_ (le_refl _)
  intro a _ w' hle
  exact le_trans hle ((hf a).writes_le w')

/-- The first call decides whether a loop of such calls writes. -/
theorem each_first (a : α) (l : List α) (w : World) :
    ((f a w).2 ≠ 0 ∧ Loop.each f (a :: l) w = f a w ∧ Untouched w (f a w).1) ∨
    ((f a w).2 = 0 ∧ w.writes.length < (Loop.each f (a :: l) w).1.writes.length) := by
  rcases hf a w with ⟨hr, hu⟩ | ⟨hr, hlt⟩
  · exact .inl ⟨hr, Loop.each_cons_stop hr, hu⟩
  · rw [Loop.each_cons_ok hr]
    exact .inr ⟨hr, lt_of_lt_of_le hlt (each_writes_le hf l (f a w).1)⟩

end

/-! ## Applying -/

/-- The first write in front of the jumps succeeds.  It is one of a relocation,
or without relocations that of the first static reference, which has to fit and
to be read before. -/
def FirstWrite (ft : Faults) (ctx : Ctx) (pdlm : DlMap)
    (relas : List ExternSymbol × List ExternSymbol) (w : World) : Prop :=
  (relas.1 ++ relas.2 ≠ [] ∧ ft.write w.nwrite = 0) ∨
  (relas.1 ++ relas.2 = [] ∧ ∃ ss ∈ ctx.pi.staticSyms.head?, refFits ctx pdlm ss = true ∧
    CallsOk ft.read w.nread (refReads ss) ∧ ft.write w.nwrite = 0)

section

variable (hdry : ctx.dryRun = true)
include hdry

/-- A dry run finds a place for the patch and maps nothing. -/
theorem loadPatch_dry (w : World) :
    (∃ pdlm, PlacedAs ctx pdlm ∧ loadPatch ft ctx w = (pdlm, w, 0)) ∨
    ((∀ pdlm, ¬ PlacedAs ctx pdlm) ∧ (loadPatch ft ctx w).2.1 = w ∧
      (loadPatch ft ctx w).2.2 ≠ 0) := by
  rcases loadPatch_placed ft ctx w with ⟨pdlm, hplaced, hload⟩ | hno
  · rw [processMmapDlMap_dry hdry] at hload
    exact .inl ⟨pdlm, hplaced, hload⟩
  · exact .inr hno

/-- The memory after a dry run of `apply_dyn_binpatch` is that after the
relocations and the static references. -/
theorem applyDynBinpatch_dry {relas : List ExternSymbol × List ExternSymbol} {w : World}
    (hl : loadPatch ft ctx w = (pdlm, w, 0)) :
    (applyDynBinpatch ft ctx relas w).world =
      if (applyRelocations ft pdlm relas w).2 = 0 then
        (applyStaticRefs ft ctx pdlm (applyRelocations ft pdlm relas w).1).1
      else (applyRelocations ft pdlm relas w).1 := by
  by_cases hr : (applyRelocations ft pdlm relas w).2 = 0
  · rw [if_pos hr]
    by_cases hs : (applyStaticRefs ft ctx pdlm (applyRelocations ft pdlm relas w).1).2 = 0
    · rw [applyDynBinpatch_jumps hl hr hs, applyFuncJumps_dry hdry]
    · rw [applyDynBinpatch_refs hl hr hs, patchUnload_dry hdry]
  · rw [if_neg hr, applyDynBinpatch_relocs hl hr, patchUnload_dry hdry]

/-- When a dry run of `apply_dyn_binpatch` leaves the process alone. -/
theorem applyDynBinpatch_untouched_iff (relas : List ExternSymbol × List ExternSymbol) (w : World) :
    Untouched w (applyDynBinpatch ft ctx relas w).world ↔
      ∀ pdlm, PlacedAs ctx pdlm → ¬ FirstWrite ft ctx pdlm relas w := by
  rcases @loadPatch_dry ft ctx hdry w with ⟨pdlm, hplace, hl⟩ | ⟨hno, hw, hne⟩
  · have hall : (∀ d, PlacedAs ctx d → ¬ FirstWrite ft ctx d relas w) ↔
        ¬ FirstWrite ft ctx pdlm relas w := by
      refine ⟨fun h => h pdlm hplace, fun h d hd => ?_⟩
      rw [hd.unique hplace]
      exact h
    rw [hall, applyDynBinpatch_dry hdry hl, applyRelocations_eq, FirstWrite]
    cases hR : relas.1 ++ relas.2 with
    | nil =>
        rw [Loop.each_nil, if_pos rfl, applyStaticRefs]
        cases hS : ctx.pi.staticSyms with
        | nil => simp [Untouched.refl]
        | cons ss S =>
            have hret := (@applyStaticRef_ret ft ctx pdlm ss w).1
            simp only [ne_eq, not_true_eq_false, false_and, true_and, false_or, List.head?_cons,
              Option.mem_some_iff, exists_eq_left', ← hret]
            rcases each_first (@applyStaticRef_writesOrFails ft ctx pdlm) ss S w with
              ⟨hr, heq, hu⟩ | ⟨hr, hlt⟩
            · rw [heq]
              exact ⟨fun _ => hr, fun _ => hu⟩
            · exact ⟨fun hu => absurd hu (not_untouched_of_lt hlt), fun h => absurd hr h⟩
    | cons es R =>
        have hret : (applyEs ft pdlm es w).2 = 0 ↔ ft.write w.nwrite = 0 :=
          processWriteData_ret _ _ _
        simp only [ne_eq, reduceCtorEq, not_false_eq_true, true_and, false_and, or_false, ← hret]
        rcases each_first (@applyEs_writesOrFails ft pdlm) es R w with ⟨hr, heq, hu⟩ | ⟨hr, hlt⟩
        · rw [heq, if_neg hr]
          exact ⟨fun _ => hr, fun _ => hu⟩
        · refine ⟨fun hu => absurd hu (not_untouched_of_lt ?_), fun h => absurd hr h⟩
          split
          · exact lt_of_lt_of_le hlt (each_writes_le applyStaticRef_writesOrFails _ _)
          · exact hlt
  · rw [applyDynBinpatch_load hne, hw]
    exact ⟨fun _ pdlm hp => absurd hp (hno pdlm), fun _ => .refl w⟩

end

/-! ## Reverting -/

/-- `do_revert_func_jump` restores the code of the function: the jump is in place
and no earlier patch has one for it. -/
def restoresCode (ctx : Ctx) (p : Patch) (m : Mem) (fj : FuncJump) : Bool :=
  inPlace m fj && (findPreviousFuncJump ctx.appliedPatches p fj).isNone

/-- A dry run gets to restoring the code of a function, and the write succeeds.
The jumps in front of it are read and left. -/
def WritesBack (ft : Faults) (ctx : Ctx) (p : Patch) (w : World) (l : List FuncJump) : Prop :=
  ∃ front fj back, l = front ++ fj :: back ∧
    (∀ g ∈ front, restoresCode ctx p w.mem g = false) ∧ restoresCode ctx p w.mem fj = true ∧
    CallsOk ft.read w.nread ((front ++ [fj]).countP isTuned) ∧ ft.write w.nwrite = 0

variable {p : Patch}

theorem writesBack_nil (w : World) : ¬ WritesBack ft ctx p w [] := by
  rintro ⟨front, fj, back, hsplit, -⟩
  exact absurd hsplit (by simp)

/-- The first jump is the one, or it is left. -/
theorem writesBack_cons {w : World} {g : FuncJump} {l : List FuncJump} :
    WritesBack ft ctx p w (g :: l) ↔
      (restoresCode ctx p w.mem g = true ∧ CallsOk ft.read w.nread ([g].countP isTuned) ∧
        ft.write w.nwrite = 0) ∨
      (restoresCode ctx p w.mem g = false ∧ CallsOk ft.read w.nread ([g].countP isTuned) ∧
        WritesBack ft ctx p { w with nread := w.nread + [g].countP isTuned } l) := by
  constructor
  · rintro ⟨front, fj, back, hsplit, hfront, hfj, hreads, hwrite⟩
    cases front with
    | nil =>
        cases hsplit
        exact .inl ⟨hfj, hreads, hwrite⟩
    | cons a front =>
        cases hsplit
        rw [List.cons_append, ← List.singleton_append, List.countP_append, callsOk_add] at hreads
        have ha := List.forall_mem_cons.mp hfront
        exact .inr ⟨ha.1, hreads.1, front, fj, back, rfl, ha.2, hfj, hreads.2, hwrite⟩
  · rintro (⟨hg, hreads, hwrite⟩ | ⟨hg, hreads, front, fj, back, rfl, hfront, hfj, hreads', hwrite⟩)
    · exact ⟨[], g, l, rfl, List.forall_mem_nil _, hg, hreads, hwrite⟩
    · refine ⟨g :: front, fj, back, rfl, List.forall_mem_cons.mpr ⟨hg, hfront⟩, hfj, ?_, hwrite⟩
      rw [List.cons_append, ← List.singleton_append, List.countP_append, callsOk_add]
      exact ⟨hreads, hreads'⟩

section

variable (hdry : ctx.dryRun = true)
include hdry

/-- What `revert_func_jump` does in a dry run. -/
theorem revertFuncJump_dry_cases (fj : FuncJump) (w : World) :
    (isTuned fj = false ∧ revertFuncJump ft ctx p fj w = (w, 0)) ∨
    (isTuned fj = true ∧ ft.read w.nread ≠ 0 ∧
      revertFuncJump ft ctx p fj w = ({ w with nread := w.nread + 1 }, -(ft.read w.nread : Int))) ∨
    (isTuned fj = true ∧ ft.read w.nread = 0 ∧ restoresCode ctx p w.mem fj = false ∧
      revertFuncJump ft ctx p fj w = ({ w with nread := w.nread + 1 }, 0)) ∨
    (isTuned fj = true ∧ ft.read w.nread = 0 ∧ restoresCode ctx p w.mem fj = true ∧
      revertFuncJump ft ctx p fj w =
        processWriteData ft fj.funcAddr fj.code { w with nread := w.nread + 1 }) := by
  rw [revertFuncJump, funcJumpApplied, processReadData]
  by_cases h0 : fj.funcAddr = 0
  · exact .inl ⟨by simp [isTuned, h0], by simp [h0]⟩
  right
  have htuned : isTuned fj = true := isTuned_iff.mpr h0
  rw [if_neg h0]
  by_cases hr : ft.read w.nread = 0
  · right
    by_cases hcode : w.mem.read fj.funcAddr 8 = fj.funcJump
    · have hplace : inPlace w.mem fj = true := inPlace_iff.mpr ⟨h0, hcode⟩
      simp only [hr, hcode, if_true, doRevertFuncJump, restoresCode, hplace, htuned, true_and]
      cases hprev : findPreviousFuncJump ctx.appliedPatches p fj with
      | none => exact .inr ⟨rfl, rfl⟩
      | some prev =>
          refine .inl ⟨rfl, ?_⟩
          simp [writeFuncJump, hdry]
    · have hplace : inPlace w.mem fj = false := by
        rw [← Bool.not_eq_true, inPlace_iff]
        exact fun h => hcode h.2
      exact .inl ⟨htuned, hr, by rw [restoresCode, hplace]; rfl, by simp [hr, hcode]⟩
  · refine .inl ⟨htuned, hr, ?_⟩
    have hle : -(ft.read w.nread : Int) ≤ 0 := by omega
    simp [hr, hle]

theorem revertFuncJump_writes_le (fj : FuncJump) (w : World) :
    w.writes.length ≤ (revertFuncJump ft ctx p fj w).1.writes.length := by
  rcases @revertFuncJump_dry_cases ft ctx p hdry fj w with
    ⟨-, h⟩ | ⟨-, -, h⟩ | ⟨-, -, -, h⟩ | ⟨-, -, -, h⟩
  · rw [h]
  · rw [h]
  · rw [h]
  · rw [h]
    exact (processWriteData_writesOrFails fj.funcAddr fj.code).writes_le
      { w with nread := w.nread + 1 }

/-- A dry run over some jumps leaves the process alone unless it gets to restoring
code. -/
theorem each_revert_untouched_iff (l : List FuncJump) (w : World) :
    Untouched w (Loop.each (revertFuncJump ft ctx p) l w).1 ↔ ¬ WritesBack ft ctx p w l := by
  induction l generalizing w with
  | nil => exact ⟨fun _ => writesBack_nil w, fun _ => .refl w⟩
  | cons g l induction =>
      rw [writesBack_cons]
      rcases @revertFuncJump_dry_cases ft ctx p hdry g w with
        ⟨hg, h⟩ | ⟨hg, hr, h⟩ | ⟨hg, hr, hres, h⟩ | ⟨hg, hr, hres, h⟩
      · have hres : restoresCode ctx p w.mem g = false := by
          rw [restoresCode, inPlace, hg]
          rfl
        rw [Loop.each_cons_ok (by rw [h]), h, induction, hres]
        simp [hg, callsOk_zero]
      · have hcalls : ¬ CallsOk ft.read w.nread 1 := fun hc => hr (hc 0 (by decide))
        rw [Loop.each_cons_stop (by rw [h]; simpa using hr), h]
        simp only [hg, List.countP_singleton, if_true, hcalls, false_and, and_false, or_false,
          not_false_eq_true, iff_true]
        exact ⟨rfl, rfl, rfl⟩
      · have hcalls : CallsOk ft.read w.nread 1 := callsOk_succ.mpr ⟨hr, callsOk_zero _ _⟩
        rw [Loop.each_cons_ok (by rw [h]), h, untouched_nread (w.nread + 1), induction]
        simp [hg, hres, hcalls]
      · have hcalls : CallsOk ft.read w.nread 1 := callsOk_succ.mpr ⟨hr, callsOk_zero _ _⟩
        simp only [hg, hres, List.countP_singleton, if_true, hcalls, true_and, reduceCtorEq,
          false_and, or_false]
        rcases processWriteData_writesOrFails g.funcAddr g.code { w with nread := w.nread + 1 } with
          ⟨hret, hu⟩ | ⟨hret, hlt⟩
        · rw [Loop.each_cons_stop (by rw [h]; exact hret), h, untouched_nread (w.nread + 1)]
          exact ⟨fun _ hw => hret ((processWriteData_ret _ _ _).mpr hw), fun _ => hu⟩
        · rw [Loop.each_cons_ok (by rw [h]; exact hret), h]
          have hle := Loop.each_inv (f := revertFuncJump ft ctx p) (l := l)
            (I := fun w' : World => w.writes.length < w'.writes.length)
            (fun a _ w' hw' => lt_of_lt_of_le hw' (revertFuncJump_writes_le hdry a w')) hlt
          exact ⟨fun hu => absurd hu (not_untouched_of_lt hle),
            fun hw => absurd ((processWriteData_ret _ _ _).mp hret) hw⟩

end

/-! ## Whole runs -/

/-- A state in which a dry run leaves the process alone.  A patch run does not get
to a first write in front of the jumps, a revert not to one that restores
code. -/
def DryClean (ft : Faults) (w : World) : Command → Prop
  | .patch inv => ∀ ctx relas, patchContext ft inv w = .ok (ctx, relas) →
      ∀ pdlm, PlacedAs ctx pdlm → ¬ FirstWrite ft ctx pdlm relas w
  | .unpatch inv => ∀ ctx p, unpatchContext ft inv w = .ok (ctx, p) → p.targetDlm.isSome →
      ¬ WritesBack ft ctx p w p.pi.funcJumps

theorem patchProcess_untouched_iff {inv : Invocation} (hdry : inv.dryRun = true) (w : World) :
    Untouched w (patchProcess ft inv w).1 ↔ DryClean ft w (.patch inv) := by
  rw [DryClean, patchProcess]
  cases hctx : patchContext ft inv w with
  | error err =>
      refine ⟨fun _ ctx relas h => ?_, fun _ => .refl w⟩
      cases h
  | ok r =>
      obtain ⟨ctx, relas⟩ := r
      have hd : ctx.dryRun = true := (patchContext_ok hctx).dryRun.trans hdry
      have hiff := @applyDynBinpatch_untouched_iff ft ctx hd relas w
      refine ⟨fun hu ctx' relas' h => ?_, fun h => hiff.mpr (h ctx relas rfl)⟩
      cases h
      exact hiff.mp hu

theorem unpatchProcess_untouched_iff {inv : Invocation} (hdry : inv.dryRun = true) (w : World) :
    Untouched w (unpatchProcess ft inv w).1 ↔ DryClean ft w (.unpatch inv) := by
  rw [DryClean, unpatchProcess]
  cases hctx : unpatchContext ft inv w with
  | error err =>
      refine ⟨fun _ ctx p h => ?_, fun _ => .refl w⟩
      cases h
  | ok r =>
      obtain ⟨ctx, p⟩ := r
      have hd : ctx.dryRun = true := (unpatchContext_ok hctx).dryRun.trans hdry
      have hiff := @each_revert_untouched_iff ft ctx p hd p.pi.funcJumps w
      have hrun : (revertDynBinpatch ft ctx p w).1 = if p.targetDlm.isSome then
          (Loop.each (revertFuncJump ft ctx p) p.pi.funcJumps w).1 else w := by
        rw [revertDynBinpatch]
        split
        · show (patchUnload ft ctx p
            (Loop.each (revertFuncJump ft ctx p) p.pi.funcJumps w).1).1 = _
          rw [patchUnload_dry hd]
        · rw [patchUnload_dry hd]
      show Untouched w (revertDynBinpatch ft ctx p w).1 ↔ _
      rw [hrun]
      cases hp : p.targetDlm.isSome with
      | false =>
          refine ⟨fun _ ctx' p' h hsome => ?_, fun _ => .refl w⟩
          cases h
          rw [hp] at hsome
          cases hsome
      | true =>
          rw [if_pos rfl, hiff]
          refine ⟨fun hno ctx' p' h _ => ?_, fun h => h ctx p rfl hp⟩
          cases h
          exact hno

/-- A dry run leaves the process alone exactly when no write without a test of
the flag is reached. -/
theorem dry_run_untouched_iff (ft : Faults) (w : World) (c : Command)
    (hdry : c.inv.dryRun = true) : Untouched w (c.run ft w).1 ↔ DryClean ft w c := by
  cases c with
  | patch inv => exact patchProcess_untouched_iff hdry w
  | unpatch inv => exact unpatchProcess_untouched_iff hdry w

/-- A patch without relocations and static references. -/
theorem smallPatch_dry_run :
    Untouched holeWorld (patchProcess {} { smallPatch with dryRun := true } holeWorld).1 := by
  refine (dry_run_untouched_iff {} holeWorld (.patch { smallPatch with dryRun := true }) rfl).mpr ?_
  intro ctx relas hctx pdlm _ hfirst
  have hnone : ((patchContext {} { smallPatch with dryRun := true } holeWorld).toOption.all fun r =>
      (r.2.1 ++ r.2.2).isEmpty && r.1.pi.staticSyms.isEmpty) = true := by decide
  rw [hctx] at hnone
  obtain ⟨hrelas, hrefs⟩ := Bool.and_eq_true_iff.mp hnone
  rcases hfirst with ⟨hne, -⟩ | ⟨-, ss, hss, -⟩
  · exact hne (List.isEmpty_iff.mp hrelas)
  · rw [List.isEmpty_iff.mp hrefs] at hss
    cases hss

/-- The patch is applied, and a dry run of its revert restores the function. -/
theorem dry_revert_writes :
    ¬ Untouched (after [.patch smallPatch])
      (unpatchProcess {} { smallPatch with dryRun := true } (after [.patch smallPatch])).1 :=
  not_untouched_of_lt (by decide)

end Nsb
