import Nsb.Patcher.Patch

/-!
# Reverting the jumps of a patch

A patch must not be unmapped while a function still jumps into it.
`patch_revert_func_jumps` stops at the first read or write that fails, prints
the error and returns zero, so `revert_dyn_binpatch` goes on to `patch_unload`
and the jumps behind the failing call stay in place.

`revertFuncJump_cases` says what one jump does, `each_revert_clears_iff` when the
loop over a list of jumps leaves none of them in place.
-/

namespace Nsb

/-- The address of the function is known. -/
def isTuned (fj : FuncJump) : Bool := fj.funcAddr != 0

theorem isTuned_iff {fj : FuncJump} : isTuned fj = true ↔ fj.funcAddr ≠ 0 := bne_iff_ne

/-- The function holds the jump of the patch. -/
def inPlace (m : Mem) (fj : FuncJump) : Bool :=
  isTuned fj && m.read fj.funcAddr 8 == fj.funcJump

theorem inPlace_iff {m : Mem} {fj : FuncJump} :
    inPlace m fj = true ↔ fj.funcAddr ≠ 0 ∧ m.read fj.funcAddr 8 = fj.funcJump := by
  rw [inPlace, Bool.and_eq_true, isTuned_iff, beq_iff_eq]

theorem inPlace_congr {m m' : Mem} {fj : FuncJump}
    (h : fj.funcAddr ≠ 0 → m.read fj.funcAddr 8 = m'.read fj.funcAddr 8) :
    inPlace m fj = inPlace m' fj := by
  rw [Bool.eq_iff_iff, inPlace_iff, inPlace_iff]
  refine and_congr_right fun h0 => ?_
  rw [h h0]

/-- The bytes that `do_revert_func_jump` writes back. -/
def restoredCode (applied : List Patch) (p : Patch) (fj : FuncJump) : Word :=
  match findPreviousFuncJump applied p fj with
  | none => fj.code
  | some prev => prev.funcJump

/-- The entries of two functions do not overlap.  A jump that was not tuned has
no entry. -/
def EntriesApart (a b : FuncJump) : Prop :=
  a.funcAddr ≠ 0 → b.funcAddr ≠ 0 → Apart a.funcAddr 8 b.funcAddr 8

theorem EntriesApart.symm {a b : FuncJump} (h : EntriesApart a b) : EntriesApart b a :=
  fun hb ha => (h ha hb).symm

theorem EntriesApart.read_write {a b : FuncJump} (h : EntriesApart a b) (ha : a.funcAddr ≠ 0)
    (hb : b.funcAddr ≠ 0) (m : Mem) (code : Word) :
    (m.write a.funcAddr code).read b.funcAddr 8 = m.read b.funcAddr 8 :=
  Mem.read_write_apart m code (h ha hb)

/-- The previous jump is one at the same function. -/
theorem findPreviousFuncJump_addr {applied : List Patch} {p : Patch} {fj prev : FuncJump}
    (h : findPreviousFuncJump applied p fj = some prev) : prev.funcAddr = fj.funcAddr := by
  obtain ⟨front, pp, back, hsplit, hfound, hnone⟩ := List.findSome?_eq_some_iff.mp h
  split at hfound
  · rw [findFunctionJump] at hfound
    have hfj := List.find?_some hfound
    exact beq_iff_eq.mp hfj
  · cases hfound

/-- The patches in front of `p` are told from it by the objects they are mapped as. -/
theorem patchesBefore_eq {l₁ l₂ : List Patch} {p : Patch}
    (hids : (l₁ ++ p :: l₂).Pairwise fun q q' => q.patchDlm.id ≠ q'.patchDlm.id) :
    patchesBefore (l₁ ++ p :: l₂) p = l₁.reverse := by
  have hne : ∀ q ∈ l₁, (q.patchDlm.id != p.patchDlm.id) = true := fun q hq => by
    simpa using (List.pairwise_append.mp hids).2.2 q hq p (List.mem_cons_self ..)
  rw [patchesBefore, List.takeWhile_append_of_pos hne, List.takeWhile_cons_of_neg (by simp),
    List.append_nil]

variable {ft : Faults} {ctx : Ctx} {p : Patch}

/-! ## One jump -/

/-- What `revert_func_jump` does, outside of a dry run. -/
theorem revertFuncJump_cases (hdry : ctx.dryRun = false) (fj : FuncJump) (w : World) :
    (fj.funcAddr = 0 ∧ revertFuncJump ft ctx p fj w = (w, 0)) ∨
    (fj.funcAddr ≠ 0 ∧ ft.read w.nread ≠ 0 ∧
      revertFuncJump ft ctx p fj w = ({ w with nread := w.nread + 1 }, -(ft.read w.nread : Int))) ∨
    (fj.funcAddr ≠ 0 ∧ ft.read w.nread = 0 ∧ inPlace w.mem fj = false ∧
      revertFuncJump ft ctx p fj w = ({ w with nread := w.nread + 1 }, 0)) ∨
    (fj.funcAddr ≠ 0 ∧ ft.read w.nread = 0 ∧ inPlace w.mem fj = true ∧
      revertFuncJump ft ctx p fj w = processWriteData ft fj.funcAddr
        (restoredCode ctx.appliedPatches p fj) { w with nread := w.nread + 1 }) := by
  rw [revertFuncJump, funcJumpApplied, processReadData]
  by_cases h0 : fj.funcAddr = 0
  · exact .inl ⟨h0, by simp [h0]⟩
  right
  rw [if_neg h0]
  by_cases hr : ft.read w.nread = 0
  · right
    by_cases hcode : w.mem.read fj.funcAddr 8 = fj.funcJump
    · refine .inr ⟨h0, hr, inPlace_iff.mpr ⟨h0, hcode⟩, ?_⟩
      simp only [hr, hcode, if_true, doRevertFuncJump, restoredCode]
      cases hprev : findPreviousFuncJump ctx.appliedPatches p fj with
      | none => rfl
      | some prev =>
          simp only [writeFuncJump, hdry, findPreviousFuncJump_addr hprev]
          rfl
    · refine .inl ⟨h0, hr, ?_, ?_⟩
      · rw [← Bool.not_eq_true, inPlace_iff]
        exact fun h => hcode h.2
      · simp [hr, hcode]
  · refine .inl ⟨h0, hr, ?_⟩
    have hle : -(ft.read w.nread : Int) ≤ 0 := by omega
    simp [hr, hle]

/-! ## All jumps -/

/-- Reverting some jumps does not touch bytes apart from their functions. -/
theorem each_revert_frame (hdry : ctx.dryRun = false) {l : List FuncJump} {w : World} {b : Addr}
    {k : Nat} (hl : ∀ a ∈ l, a.funcAddr ≠ 0 → Apart a.funcAddr 8 b k) :
    (Loop.each (revertFuncJump ft ctx p) l w).1.mem.read b k = w.mem.read b k := by
  refine Loop.each_inv (I := fun w' : World => w'.mem.read b k = w.mem.read b k) ?_ rfl
  intro a ha w' hw'
  obtain ⟨-, h⟩ | ⟨-, -, h⟩ | ⟨-, -, -, h⟩ | ⟨h0, -, -, h⟩ :=
    @revertFuncJump_cases ft ctx p hdry a w'
  · rw [h]
    exact hw'
  · rw [h]
    exact hw'
  · rw [h]
    exact hw'
  · rw [h]
    exact ((@processWriteData_frame ft a.funcAddr (restoredCode ctx.appliedPatches p a)
      { w' with nread := w'.nread + 1 }).2.2 b k (hl a ha h0)).trans hw'

theorem each_revert_read (hdry : ctx.dryRun = false) {l : List FuncJump} {w : World} {fj : FuncJump}
    (hfj : fj.funcAddr ≠ 0) (hl : ∀ a ∈ l, EntriesApart a fj) :
    (Loop.each (revertFuncJump ft ctx p) l w).1.mem.read fj.funcAddr 8 =
      w.mem.read fj.funcAddr 8 :=
  each_revert_frame hdry fun a ha h0 => hl a ha h0 hfj

/-! ## Without faults -/

/-- Without a fault a jump in place is replaced by what was there before. -/
theorem revertFuncJump_ok (hdry : ctx.dryRun = false) {fj : FuncJump} {w : World}
    (hread : ft.read w.nread = 0) (hwrite : ft.write w.nwrite = 0) :
    (revertFuncJump ft ctx p fj w).2 = 0 ∧ (revertFuncJump ft ctx p fj w).1.vmas = w.vmas ∧
    (revertFuncJump ft ctx p fj w).1.mem = if inPlace w.mem fj then
      w.mem.write fj.funcAddr (restoredCode ctx.appliedPatches p fj) else w.mem := by
  obtain ⟨h0, h⟩ | ⟨-, hr, -⟩ | ⟨-, -, hplace, h⟩ | ⟨-, -, hplace, h⟩ :=
    @revertFuncJump_cases ft ctx p hdry fj w
  · have hno : ¬ inPlace w.mem fj = true := fun hp => (inPlace_iff.mp hp).1 h0
    rw [h, if_neg hno]
    exact ⟨rfl, rfl, rfl⟩
  · exact absurd hread hr
  · rw [h, hplace]
    exact ⟨rfl, rfl, rfl⟩
  · rw [h, processWriteData_ok _ _ (by exact hwrite), hplace]
    exact ⟨rfl, rfl, rfl⟩

/-- Without faults all jumps in place are replaced. -/
theorem each_revert_ok (hdry : ctx.dryRun = false) (hread : ∀ n, ft.read n = 0)
    (hwrite : ∀ n, ft.write n = 0) :
    ∀ {l : List FuncJump} {w : World}, l.Pairwise EntriesApart →
      (Loop.each (revertFuncJump ft ctx p) l w).1.vmas = w.vmas ∧
      ∀ fj ∈ l, fj.funcAddr ≠ 0 →
        (Loop.each (revertFuncJump ft ctx p) l w).1.mem.read fj.funcAddr 8 =
          if inPlace w.mem fj then restoredCode ctx.appliedPatches p fj
          else w.mem.read fj.funcAddr 8
  | [], w, _ => ⟨rfl, fun fj hfj => by cases hfj⟩
  | a :: l, w, hl => by
      obtain ⟨ha, hl'⟩ := List.pairwise_cons.mp hl
      obtain ⟨hret, hvmas, hmem⟩ :=
        @revertFuncJump_ok ft ctx p hdry a w (hread _) (hwrite _)
      obtain ⟨ihv, ihm⟩ := each_revert_ok hdry hread hwrite hl'
        (w := (revertFuncJump ft ctx p a w).1)
      rw [Loop.each_cons_ok hret]
      refine ⟨ihv.trans hvmas, List.forall_mem_cons.mpr ⟨fun ha0 => ?_, fun fj hfj hfj0 => ?_⟩⟩
      · rw [each_revert_read hdry ha0 fun b hb => (ha b hb).symm, hmem]
        split
        · exact Mem.read_write_self _ _ _ (by decide)
        · rfl
      · have hkeep : (revertFuncJump ft ctx p a w).1.mem.read fj.funcAddr 8 =
            w.mem.read fj.funcAddr 8 := by
          rw [hmem]
          split
          · rename_i hplace
            exact (ha fj hfj).read_write (inPlace_iff.mp hplace).1 hfj0 _ _
          · rfl
        rw [ihm fj hfj hfj0, hkeep, inPlace_congr fun _ => hkeep]

/-! ## Faults -/

/-- The calls that reverting some jumps makes succeed: a read for every jump that
was tuned and a write for every jump in place. -/
def RevertCallsOk (ft : Faults) (w : World) (l : List FuncJump) : Prop :=
  CallsOk ft.read w.nread (l.countP isTuned) ∧
  CallsOk ft.write w.nwrite (l.countP (inPlace w.mem))

theorem revertCallsOk_untuned {w : World} {a : FuncJump} {l : List FuncJump}
    (h : a.funcAddr = 0) : RevertCallsOk ft w (a :: l) ↔ RevertCallsOk ft w l := by
  have hplace : ¬ inPlace w.mem a = true := fun hp => (inPlace_iff.mp hp).1 h
  rw [RevertCallsOk, RevertCallsOk, List.countP_cons_of_neg (fun ht => isTuned_iff.mp ht h),
    List.countP_cons_of_neg hplace]

theorem revertCallsOk_read {w : World} {a : FuncJump} {l : List FuncJump}
    (h : a.funcAddr ≠ 0) (hplace : inPlace w.mem a = false) :
    RevertCallsOk ft w (a :: l) ↔
      ft.read w.nread = 0 ∧ RevertCallsOk ft { w with nread := w.nread + 1 } l := by
  rw [RevertCallsOk, RevertCallsOk, List.countP_cons_of_pos (isTuned_iff.mpr h),
    List.countP_cons_of_neg (by simp [hplace]), callsOk_succ, and_assoc]

theorem revertCallsOk_write {w w' : World} {a : FuncJump} {l : List FuncJump}
    (h : inPlace w.mem a = true) (hr : w'.nread = w.nread + 1) (hw : w'.nwrite = w.nwrite + 1)
    (hl : ∀ fj ∈ l, inPlace w'.mem fj = inPlace w.mem fj) :
    RevertCallsOk ft w (a :: l) ↔
      ft.read w.nread = 0 ∧ ft.write w.nwrite = 0 ∧ RevertCallsOk ft w' l := by
  have hcount : l.countP (inPlace w'.mem) = l.countP (inPlace w.mem) :=
    List.countP_congr fun fj hfj => by rw [hl fj hfj]
  rw [RevertCallsOk, RevertCallsOk, List.countP_cons_of_pos (isTuned_iff.mpr (inPlace_iff.mp h).1),
    List.countP_cons_of_pos h, callsOk_succ, callsOk_succ, hr, hw, hcount]
  tauto

/-- Up to the last jump in place no call fails, and what is written back is never
the jump itself. -/
def RevertsClean (ft : Faults) (ctx : Ctx) (p : Patch) (w : World) (l : List FuncJump) : Prop :=
  ∀ front fj back, l = front ++ fj :: back → inPlace w.mem fj = true →
    RevertCallsOk ft w (front ++ [fj]) ∧ restoredCode ctx.appliedPatches p fj ≠ fj.funcJump

section

variable {a : FuncJump} {l : List FuncJump} {w w' : World}

/-! The first jump of the list, by what happens to it. -/

theorem revertsClean_untuned (h : a.funcAddr = 0) :
    RevertsClean ft ctx p w (a :: l) ↔ RevertsClean ft ctx p w l := by
  have hplace : inPlace w.mem a = false := by
    rw [← Bool.not_eq_true, inPlace_iff]
    exact fun hp => hp.1 h
  rw [RevertsClean, Loop.splits_cons]
  simp only [hplace, List.cons_append, revertCallsOk_untuned h]
  simp [RevertsClean]

theorem revertsClean_read (h : a.funcAddr ≠ 0) (hplace : inPlace w.mem a = false)
    (hread : ft.read w.nread = 0) :
    RevertsClean ft ctx p w (a :: l) ↔ RevertsClean ft ctx p { w with nread := w.nread + 1 } l := by
  rw [RevertsClean, Loop.splits_cons]
  simp only [hplace, List.cons_append, revertCallsOk_read h hplace, hread, true_and]
  simp [RevertsClean]

theorem revertsClean_write (hplace : inPlace w.mem a = true) (hread : ft.read w.nread = 0)
    (hwrite : ft.write w.nwrite = 0) (hr : w'.nread = w.nread + 1) (hw : w'.nwrite = w.nwrite + 1)
    (hl : ∀ fj ∈ l, inPlace w'.mem fj = inPlace w.mem fj) :
    RevertsClean ft ctx p w (a :: l) ↔
      restoredCode ctx.appliedPatches p a ≠ a.funcJump ∧ RevertsClean ft ctx p w' l := by
  have hcalls : ∀ l' : List FuncJump, (∀ fj ∈ l', fj ∈ l) →
      (RevertCallsOk ft w (a :: l') ↔ RevertCallsOk ft w' l') := by
    intro l' hsub
    rw [revertCallsOk_write hplace hr hw fun fj hfj => hl fj (hsub fj hfj)]
    simp [hread, hwrite]
  rw [RevertsClean, Loop.splits_cons]
  refine and_congr ?_ (forall_congr' fun front => forall_congr' fun fj =>
    forall_congr' fun back => forall_congr' fun hsplit => ?_)
  · have hself : RevertCallsOk ft w [a] :=
      (hcalls [] fun _ hn => by cases hn).mpr ⟨callsOk_zero _ _, callsOk_zero _ _⟩
    simp [hplace, hself]
  · have hsub : ∀ b ∈ front ++ [fj], b ∈ l := by
      rw [hsplit]
      simp only [List.mem_append, List.mem_cons, List.not_mem_nil, or_false]
      exact fun b hb => hb.imp_right Or.inl
    rw [hl fj (hsub fj (by simp)), List.cons_append, hcalls _ hsub]

/-- When the calls for the first jump fail, no jump may be in place. -/
theorem revertsClean_stop (hcalls : ∀ l', ¬ RevertCallsOk ft w (a :: l')) :
    RevertsClean ft ctx p w (a :: l) ↔ ∀ fj ∈ a :: l, inPlace w.mem fj = false := by
  rw [RevertsClean, Loop.splits_cons, List.forall_mem_cons]
  constructor
  · rintro ⟨hna, hnl⟩
    rw [← Bool.not_eq_true]
    refine ⟨fun hp => hcalls [] (hna hp).1, fun fj hfj => ?_⟩
    obtain ⟨front, back, hsplit⟩ := List.append_of_mem hfj
    rw [← Bool.not_eq_true]
    exact fun hp => hcalls _ (hnl front fj back hsplit hp).1
  · rintro ⟨hna, hnl⟩
    refine ⟨fun hp => absurd hp (by simp [hna]), fun front fj back hsplit hp => ?_⟩
    have hmem : fj ∈ l := by rw [hsplit]; simp
    exact absurd hp (by simp [hnl fj hmem])

end

/-- When reverting a list of jumps leaves none of them in place. -/
theorem each_revert_clears_iff (hdry : ctx.dryRun = false) :
    ∀ {l : List FuncJump} {w : World}, l.Pairwise EntriesApart →
      ((∀ fj ∈ l, inPlace (Loop.each (revertFuncJump ft ctx p) l w).1.mem fj = false) ↔
        RevertsClean ft ctx p w l)
  | [], w, _ => by simp [RevertsClean]
  | a :: l, w, hl => by
      obtain ⟨ha, hl'⟩ := List.pairwise_cons.mp hl
      have hother : ∀ b ∈ l, EntriesApart b a := fun b hb => (ha b hb).symm
      obtain ⟨h0, h⟩ | ⟨h0, hr, h⟩ | ⟨h0, hr, hplace, h⟩ | ⟨h0, hr, hplace, h⟩ :=
        @revertFuncJump_cases ft ctx p hdry a w
      · -- the jump was not tuned
        have hself : inPlace (Loop.each (revertFuncJump ft ctx p) l w).1.mem a = false := by
          rw [← Bool.not_eq_true, inPlace_iff]
          exact fun hp => hp.1 h0
        rw [Loop.each_cons_ok (by rw [h]), h, List.forall_mem_cons, revertsClean_untuned h0,
          each_revert_clears_iff hdry hl', and_iff_right hself]
      · -- the read fails and everything stays as it is
        have hcalls : ∀ l', ¬ RevertCallsOk ft w (a :: l') := by
          rintro l' ⟨hreads, -⟩
          rw [List.countP_cons_of_pos (isTuned_iff.mpr h0), callsOk_succ] at hreads
          exact hr hreads.1
        rw [Loop.each_cons_stop (by rw [h]; dsimp only; omega), h, revertsClean_stop hcalls]
      · -- the function holds something else
        have hself : inPlace (Loop.each (revertFuncJump ft ctx p) l
            { w with nread := w.nread + 1 }).1.mem a = false := by
          rw [← hplace]
          exact inPlace_congr fun _ => each_revert_read hdry h0 hother
        rw [Loop.each_cons_ok (by rw [h]), h, List.forall_mem_cons, revertsClean_read h0 hplace hr,
          each_revert_clears_iff hdry hl', and_iff_right hself]
      · by_cases hw : ft.write w.nwrite = 0
        · -- the function is restored
          rw [processWriteData_ok _ _ (by exact hw)] at h
          have hmem : (revertFuncJump ft ctx p a w).1.mem =
              w.mem.write a.funcAddr (restoredCode ctx.appliedPatches p a) := by rw [h]
          have hkeep : ∀ fj ∈ l, inPlace (revertFuncJump ft ctx p a w).1.mem fj =
              inPlace w.mem fj := by
            intro fj hfj
            rw [hmem]
            exact inPlace_congr fun hfj0 => (ha fj hfj).read_write h0 hfj0 _ _
          have hself : inPlace (Loop.each (revertFuncJump ft ctx p) l
              (revertFuncJump ft ctx p a w).1).1.mem a = false ↔
              restoredCode ctx.appliedPatches p a ≠ a.funcJump := by
            rw [← Bool.not_eq_true, inPlace_iff, each_revert_read hdry h0 hother, hmem,
              Mem.read_write_self _ _ _ (by decide)]
            exact ⟨fun hn heq => hn ⟨h0, heq⟩, fun hn hp => hn hp.2⟩
          rw [Loop.each_cons_ok (by rw [h]), List.forall_mem_cons, hself,
            each_revert_clears_iff hdry hl',
            revertsClean_write hplace hr hw (by rw [h]) (by rw [h]) hkeep]
        · -- the write fails and everything stays as it is
          rw [processWriteData_error _ _ (by exact hw)] at h
          have hcalls : ∀ l', ¬ RevertCallsOk ft w (a :: l') := by
            rintro l' ⟨-, hwrites⟩
            rw [List.countP_cons_of_pos hplace, callsOk_succ] at hwrites
            exact hw hwrites.1
          rw [Loop.each_cons_stop (by rw [h]; dsimp only; omega), h, revertsClean_stop hcalls]

/-! ## The revert command -/

/-- When the patch is unmapped, none of its jumps is in place. -/
def UnloadsReverted (ft : Faults) (ctx : Ctx) (p : Patch) (w : World) : Prop :=
  ctx.dryRun = false → (patchRevertFuncJumps ft ctx p w).2 = 0 →
    ∀ fj ∈ p.pi.funcJumps, inPlace (patchRevertFuncJumps ft ctx p w).1.mem fj = false

/-- `revert_dyn_binpatch` always goes on to unmap the patch.  No jump is left
exactly when no read and no write fails up to the last jump in place, and none of
the functions gets the same jump back. -/
theorem revertDynBinpatch_clears_iff (hp : p.targetDlm.isSome = true) (w : World)
    (hl : p.pi.funcJumps.Pairwise EntriesApart) :
    revertDynBinpatch ft ctx p w = patchUnload ft ctx p (patchRevertFuncJumps ft ctx p w).1 ∧
    (UnloadsReverted ft ctx p w ↔
      ctx.dryRun = true ∨
        ∀ front fj back, p.pi.funcJumps = front ++ fj :: back → inPlace w.mem fj = true →
          RevertCallsOk ft w (front ++ [fj]) ∧
            restoredCode ctx.appliedPatches p fj ≠ fj.funcJump) := by
  constructor
  · rw [revertDynBinpatch, if_pos hp]
    exact if_neg (fun h => h rfl)
  · rw [UnloadsReverted]
    cases hdry : ctx.dryRun with
    | true => simp
    | false =>
        have hret : (patchRevertFuncJumps ft ctx p w).2 = 0 := rfl
        have hworld : (patchRevertFuncJumps ft ctx p w).1 =
            (Loop.each (revertFuncJump ft ctx p) p.pi.funcJumps w).1 := rfl
        have hclears := @each_revert_clears_iff ft ctx p hdry p.pi.funcJumps w hl
        rw [RevertsClean] at hclears
        rw [hworld, ← hclears]
        simp [hret]

/-- A patch with one jump, applied. -/
def appliedPatch : Patch :=
  { pi := { targetBid := "target", patchBid := "patch"
            funcJumps := [{ funcValue := 0x10, patchValue := 0x20, funcAddr := 0x400010
                            code := #v[0x55, 0x48, 0x89, 0xe5, 0x5d, 0xc3, 0x90, 0x90]
                            funcJump := #v[0xe9, 0x0b, 0x00, 0x20, 0x00, 0, 0, 0] }] }
    targetDlm := some { id := 0, path := some "target.so", ei := {} }
    patchDlm := { id := 1, path := some "patch.so", ei := {} } }

def appliedCtx : Ctx :=
  { patchfile := "patch.so", patchEi := {}, vmas := [], dlMaps := []
    appliedPatches := [appliedPatch]
    pi := appliedPatch.pi, targetDlm := { id := 0, path := some "target.so", ei := {} } }

def appliedWorld : World :=
  { mem := Mem.write (fun _ => 0) 0x400010 (#v[0xe9, 0x0b, 0x00, 0x20, 0x00, 0, 0, 0] : Word) }

theorem appliedWorld_inPlace :
    ∀ fj ∈ appliedPatch.pi.funcJumps, inPlace appliedWorld.mem fj = true :=
  List.forall_mem_singleton.mpr
    (inPlace_iff.mpr ⟨by decide, Mem.read_write_self _ _ _ (by decide)⟩)

/-- Without faults the jump is taken back. -/
theorem appliedPatch_reverted : UnloadsReverted {} appliedCtx appliedPatch appliedWorld := by
  refine (revertDynBinpatch_clears_iff rfl appliedWorld (List.pairwise_singleton ..)).2.mpr
    (.inr ?_)
  intro front fj back hsplit _
  have hfj : fj ∈ appliedPatch.pi.funcJumps := by rw [hsplit]; simp
  refine ⟨⟨fun _ _ => rfl, fun _ _ => rfl⟩, ?_⟩
  rw [List.mem_singleton.mp hfj]
  decide

/-- A failing read leaves the jump in place, and the patch is unmapped all the
same. -/
theorem readFault_unmaps_jump :
    revertDynBinpatch { read := fun _ => 5 } appliedCtx appliedPatch appliedWorld =
      patchUnload { read := fun _ => 5 } appliedCtx appliedPatch
        (patchRevertFuncJumps { read := fun _ => 5 } appliedCtx appliedPatch appliedWorld).1 ∧
    ¬ UnloadsReverted { read := fun _ => 5 } appliedCtx appliedPatch appliedWorld := by
  refine ⟨rfl, fun h => ?_⟩
  have hclear := h rfl rfl _ (List.mem_cons_self ..)
  have hplace := appliedWorld_inPlace _ (List.mem_cons_self ..)
  have hmem : (patchRevertFuncJumps { read := fun _ => 5 } appliedCtx appliedPatch
      appliedWorld).1.mem = appliedWorld.mem := rfl
  rw [hmem, hplace] at hclear
  cases hclear

end Nsb
