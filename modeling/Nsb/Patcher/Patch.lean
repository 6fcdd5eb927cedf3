import Nsb.Patcher.Relocations

/-!
# Applying and reverting a patch

`patcher/patch.c`.  A patch is mapped, its relocations and static references are
written, and then the first eight bytes of every patched function are replaced
by a jump.  Reverting restores the bytes and unmaps the patch.

The jumps of a patch are changed in place when they are tuned, and functions
that do so return the new `PatchInfo`.  The position of a patch in
`ctx->applied_patches` is found by the address of its `patch_dlm`, which no two
patches share.

`open` on the file of a target without executable mapping would follow NULL; the
model returns `-EFAULT`.
-/

namespace Nsb

variable (ft : Faults)

/-! ## Function jumps -/

/-- `write_func_code`. -/
def writeFuncCode (fj : FuncJump) (w : World) : World × Int :=
  processWriteData ft fj.funcAddr fj.code w

/-- `write_func_jump`. -/
def writeFuncJump (ctx : Ctx) (fj : FuncJump) (w : World) : World × Int :=
  if ctx.dryRun then (w, 0) else processWriteData ft fj.funcAddr fj.funcJump w

/-- `apply_func_jumps`: an error is printed and not returned. -/
def applyFuncJumps (ctx : Ctx) (pi : PatchInfo) (w : World) : World × Int :=
  let (w, _) := iteratePatchFunctionJumps pi (writeFuncJump ft ctx) w
  (w, 0)

/-- The bytes of a file. -/
def MapFile.data : MapFile → BitVec 64 → Byte
  | .elf ei => ei.data
  | _ => fun _ => 0

/-- `read_func_jump_code`, the `n`-th file access. -/
def readFuncJumpCode (target : DlMap) (fj : FuncJump) (n : Nat) : FuncJump × Int :=
  match target.execVma.bind Vma.mapFile with
  | none => (fj, -EFAULT)
  | some file =>
      let offset := fj.funcValue - elfSectionVirtBase target.ei (fj.shndx.setWidth 16)
      if offset.toInt < 0 then (fj, -EINVAL)
      else
        let code : Word := Vector.ofFn fun i => file.data (offset + BitVec.ofNat 64 i.val)
        if ft.file n = 0 then ({ fj with code := code }, 0)
        else
          ({ fj with code := Vector.ofFn fun i =>
              if i.val < ft.fileGot n then code.get i else fj.code.get i }, -ft.file n)

/-- `tune_patch_func_jump`.  The state is the number of file accesses. -/
def tunePatchFuncJump (target patch : DlMap) (fj : FuncJump) (n : Nat) :
    Option FuncJump × Nat × Int :=
  let funcAddr := dlmLoadBase target + fj.funcValue
  let patchAddr := dlmLoadBase patch + fj.patchValue
  let (funcJump, size) := x86JmpqInstruction fj.funcJump funcAddr patchAddr
  let fj := { fj with funcAddr := funcAddr, funcJump := funcJump }
  if size < 0 then (some fj, n, size)
  else
    let (fj, err) := readFuncJumpCode ft target fj n
    (some fj, n + 1, err)

/-- `tune_patch_func_jumps`: an error is printed and not returned. -/
def tunePatchFuncJumps (target patch : DlMap) (pi : PatchInfo) (n : Nat) : PatchInfo × Nat × Int :=
  let (funcJumps, n, _) := Loop.eachSafe (tunePatchFuncJump ft target patch) pi.funcJumps n
  ({ pi with funcJumps := funcJumps }, n, 0)

/-- `tune_func_jumps`: printing the jumps always returns zero. -/
def tuneFuncJumps (ctx : Ctx) (patch : DlMap) (n : Nat) : PatchInfo × Nat × Int :=
  tunePatchFuncJumps ft ctx.targetDlm patch ctx.pi n

/-! ## Reverting -/

/-- `func_jump_applied`: one, zero or an error. -/
def funcJumpApplied (fj : FuncJump) (w : World) : World × Int :=
  if fj.funcAddr = 0 then (w, 0)
  else
    match processReadData ft fj.funcAddr w with
    | (w, .error err) => (w, err)
    | (w, .ok code) => (w, if code = fj.funcJump then 1 else 0)

/-- `find_function_jump` with `compare_fj_addr`. -/
def findFunctionJump (pi : PatchInfo) (addr : Addr) : Option FuncJump :=
  pi.funcJumps.find? fun fj => fj.funcAddr == addr

/-- The patches in front of `p`, the nearest first. -/
def patchesBefore (applied : List Patch) (p : Patch) : List Patch :=
  (applied.takeWhile fun q => q.patchDlm.id != p.patchDlm.id).reverse

/-- `find_previous_func_jump`. -/
def findPreviousFuncJump (applied : List Patch) (p : Patch) (fj : FuncJump) : Option FuncJump :=
  (patchesBefore applied p).findSome? fun pp =>
    if pp.targetDlm.map DlMap.id = p.targetDlm.map DlMap.id then
      findFunctionJump pp.pi fj.funcAddr
    else none

/-- `do_revert_func_jump`. -/
def doRevertFuncJump (ctx : Ctx) (p : Patch) (fj : FuncJump) (w : World) : World × Int :=
  match findPreviousFuncJump ctx.appliedPatches p fj with
  | none => writeFuncCode ft fj w
  | some prev => writeFuncJump ft ctx prev w

/-- `revert_func_jump`. -/
def revertFuncJump (ctx : Ctx) (p : Patch) (fj : FuncJump) (w : World) : World × Int :=
  let (w, applied) := funcJumpApplied ft fj w
  if applied ≤ 0 then (w, applied) else doRevertFuncJump ft ctx p fj w

/-- `patch_revert_func_jumps`: an error is printed and not returned. -/
def patchRevertFuncJumps (ctx : Ctx) (p : Patch) (w : World) : World × Int :=
  let (w, _) := iteratePatchFunctionJumps p.pi (revertFuncJump ft ctx p) w
  (w, 0)

/-- `patch_unload`. -/
def patchUnload (ctx : Ctx) (p : Patch) (w : World) : World × Int :=
  unloadElf ft ctx p.patchDlm w

/-- `revert_dyn_binpatch`. -/
def revertDynBinpatch (ctx : Ctx) (p : Patch) (w : World) : World × Int :=
  if p.targetDlm.isSome then
    let (w, err) := patchRevertFuncJumps ft ctx p w
    if err ≠ 0 then (w, err) else patchUnload ft ctx p w
  else patchUnload ft ctx p w

/-! ## Static references -/

/-- `write_static_ref`. -/
def writeStaticRef (addr : Addr) (offset : BitVec 64) (offsetSize : Nat) (w : World) :
    World × Int :=
  let bytes (buf : Word) : Word := Vector.ofFn fun i =>
    if i.val < offsetSize then (wordOf offset).get i else buf.get i
  if offsetSize = 4 then
    match processReadData ft addr w with
    | (w, .error err) => (w, err)
    | (w, .ok old) => processWriteData ft addr (bytes old) w
  else processWriteData ft addr (bytes ft.junk) w

/-- The range test of `apply_static_ref`. -/
def relocOverflows (reloc : BitVec 64) (size : Nat) : Bool :=
  let sign := (reloc >>> (8 * size - 1)) &&& 1
  (if sign ≠ 0 then ~~~ reloc else reloc) >>> (8 * size) != 0

/-- `apply_static_ref`. -/
def applyStaticRef (ctx : Ctx) (pdlm : DlMap) (ss : StaticSym) (w : World) : World × Int :=
  let patchRefAddr := dlmLoadBase pdlm + ss.patchAddress
  let reloc := ss.targetValue + dlmLoadBase ctx.targetDlm - dlmLoadBase pdlm
  if ss.patchSize.toNat < 8 ∧ relocOverflows reloc ss.patchSize.toNat then (w, -EINVAL)
  else writeStaticRef ft patchRefAddr reloc ss.patchSize.toNat w

/-- `apply_static_refs`. -/
def applyStaticRefs (ctx : Ctx) (pdlm : DlMap) (w : World) : World × Int :=
  Loop.each (applyStaticRef ft ctx pdlm) ctx.pi.staticSyms w

/-! ## Applying -/

/-- `load_patch`: the object of the patch, and the return code. -/
def loadPatch (ctx : Ctx) (w : World) : DlMap × World × Int :=
  loadElf ft ctx (allocDlMap (ctx.dlMaps.length + 1) ctx.patchEi (some ctx.patchfile)) w

/-- What `apply_dyn_binpatch` leaves behind.  `rollback` is the return code of
the rollback, which is printed only; it is zero when there was none. -/
structure ApplyResult where
  world : World
  pi : PatchInfo
  err : Int
  rollback : Int := 0

/-- `apply_dyn_binpatch`, for resolved relocations. -/
def applyDynBinpatch (ctx : Ctx) (relas : List ExternSymbol × List ExternSymbol) (w : World) :
    ApplyResult :=
  let (pdlm, w, err) := loadPatch ft ctx w
  if err ≠ 0 then { world := w, pi := ctx.pi, err := err }
  else
    let p : Patch := { pi := ctx.pi, targetDlm := some ctx.targetDlm, patchDlm := pdlm }
    let unload (w : World) (err : Int) : ApplyResult :=
      let (w, ret) := patchUnload ft ctx p w
      { world := w, pi := ctx.pi, err := err, rollback := ret }
    let (w, err) := applyRelocations ft pdlm relas w
    if err ≠ 0 then unload w err
    else
      let (w, err) := applyStaticRefs ft ctx pdlm w
      if err ≠ 0 then unload w err
      else
        let (pi, _, err) := tuneFuncJumps ft ctx pdlm 0
        if err ≠ 0 then unload w err
        else
          let (w, err) := applyFuncJumps ft ctx pi w
          if err ≠ 0 then
            let p := { p with pi := pi }
            let ctx := { ctx with appliedPatches := ctx.appliedPatches ++ [p] }
            let (w, ret) := patchRevertFuncJumps ft ctx p w
            { world := w, pi := pi, err := err, rollback := ret }
          else { world := w, pi := pi, err := 0 }

/-! ## Collecting the applied patches -/

/-- `elf_info_binpatch`: the jumps are allocated zeroed. -/
def elfInfoBinpatch (ei : ElfInfo) : Except Int PatchInfo :=
  match ei.vzpatch with
  | none => .error (-EINVAL)
  | some (.error err) => .error err
  | some (.ok pi) =>
      .ok { pi with funcJumps := pi.funcJumps.map fun fj =>
        { fj with funcAddr := 0, code := Vector.replicate 8 0, funcJump := Vector.replicate 8 0 } }

/-- `create_patch_by_dlm`. -/
def createPatchByDlm (dlMaps : List DlMap) (dlm : DlMap) (n : Nat) : Except Int (Patch × Nat) :=
  (elfInfoBinpatch dlm.ei).map fun pi =>
    match findDlMapByBid dlMaps pi.targetBid with
    | none => ({ pi := pi, targetDlm := none, patchDlm := dlm }, n)
    | some target =>
        if dlm.execVma.isSome then
          let (pi, n, _) := tunePatchFuncJumps ft target dlm pi n
          ({ pi := pi, targetDlm := some target, patchDlm := dlm }, n)
        else ({ pi := pi, targetDlm := some target, patchDlm := dlm }, n)

/-- `check_vzpatch`. -/
def checkVzpatch (dlMaps : List DlMap) (dlm : DlMap) (st : List Patch × Nat) :
    (List Patch × Nat) × Int :=
  if dlm.ei.vzpatch.isNone then (st, 0)
  else
    match createPatchByDlm ft dlMaps dlm st.2 with
    | .error err => (st, err)
    | .ok (patch, n) => ((st.1 ++ [patch], n), 0)

/-- `collect_patches`. -/
def collectPatches (dlMaps : List DlMap) : (List Patch × Nat) × Int :=
  Loop.each (checkVzpatch ft dlMaps) dlMaps ([], 0)

/-- `find_patch_by_bid`. -/
def findPatchByBid (applied : List Patch) (bid : String) : Option Patch :=
  applied.find? fun p => p.pi.patchBid == bid

/-! ## What is collected -/

/-- The object is a patch. -/
def isPatchDlm (d : DlMap) : Bool :=
  match d.ei.vzpatch with
  | some (.ok _) => true
  | _ => false

variable {ft}

theorem createPatchByDlm_ok {dlMaps : List DlMap} {d : DlMap} {n n' : Nat} {p : Patch}
    (h : createPatchByDlm ft dlMaps d n = .ok (p, n')) :
    isPatchDlm d = true ∧ p.patchDlm = d ∧
      ∃ pi, d.ei.vzpatch = some (.ok pi) ∧ p.pi.patchBid = pi.patchBid := by
  rw [createPatchByDlm, elfInfoBinpatch] at h
  rw [isPatchDlm]
  cases hv : d.ei.vzpatch with
  | none => rw [hv] at h; cases h
  | some e => cases e with
    | error err => rw [hv] at h; cases h
    | ok pi =>
        rw [hv] at h
        dsimp only [Except.map] at h
        refine ⟨rfl, ?_⟩
        split at h
        · cases h
          exact ⟨rfl, pi, rfl, rfl⟩
        · split at h <;> cases h <;> exact ⟨rfl, pi, rfl, rfl⟩

/-- One object of `collect_patches`: a patch is appended, any other object is
skipped. -/
theorem checkVzpatch_cases (dlMaps : List DlMap) (d : DlMap) (st : List Patch × Nat) :
    (isPatchDlm d = false ∧ (checkVzpatch ft dlMaps d st).1 = st) ∨
    ∃ p n, createPatchByDlm ft dlMaps d st.2 = .ok (p, n) ∧
      (checkVzpatch ft dlMaps d st).1 = (st.1 ++ [p], n) := by
  rw [checkVzpatch]
  cases hv : d.ei.vzpatch with
  | none => exact .inl ⟨by rw [isPatchDlm, hv], by simp⟩
  | some e =>
      simp only [Option.isNone_some, Bool.false_eq_true, if_false]
      cases hc : createPatchByDlm ft dlMaps d st.2 with
      | error err =>
          refine .inl ⟨?_, rfl⟩
          rw [isPatchDlm, hv]
          cases e with
          | error err' => rfl
          | ok pi =>
              rw [createPatchByDlm, elfInfoBinpatch, hv] at hc
              cases hc
      | ok q => exact .inr ⟨q.1, q.2, rfl, rfl⟩

/-- `collect_patches` from an object on. -/
theorem each_checkVzpatch {dlMaps : List DlMap} :
    ∀ {l : List DlMap} {st : List Patch × Nat}, (Loop.each (checkVzpatch ft dlMaps) l st).2 = 0 →
      ∃ ps, (Loop.each (checkVzpatch ft dlMaps) l st).1.1 = st.1 ++ ps ∧
        ps.map Patch.patchDlm = l.filter isPatchDlm ∧
        ∀ p ∈ ps, ∃ n n', createPatchByDlm ft dlMaps p.patchDlm n = .ok (p, n')
  | [], st, _ => ⟨[], by simp, rfl, fun p hp => by cases hp⟩
  | d :: l, st, h => by
      by_cases hr : (checkVzpatch ft dlMaps d st).2 = 0
      · rw [Loop.each_cons_ok hr] at h ⊢
        obtain ⟨ps, hps, hmap, hcreated⟩ := each_checkVzpatch h
        obtain ⟨hskip, hst⟩ | ⟨p, n, hc, hst⟩ := checkVzpatch_cases dlMaps d st
        · refine ⟨ps, by rw [hps, hst], ?_, hcreated⟩
          rw [hmap, List.filter_cons_of_neg (by simp [hskip])]
        · obtain ⟨his, hdlm, -⟩ := createPatchByDlm_ok hc
          refine ⟨p :: ps, ?_, ?_, ?_⟩
          · rw [hps, hst, List.append_assoc]
            rfl
          · rw [List.map_cons, hmap, hdlm, List.filter_cons_of_pos his]
          · exact List.forall_mem_cons.mpr ⟨⟨st.2, n, by rw [hdlm]; exact hc⟩, hcreated⟩
      · rw [Loop.each_cons_stop hr] at h
        exact absurd h hr

/-- The applied patches are the objects with a `vzpatch` section, in order. -/
theorem collectPatches_created {dlMaps : List DlMap} (h : (collectPatches ft dlMaps).2 = 0) :
    (collectPatches ft dlMaps).1.1.map Patch.patchDlm = dlMaps.filter isPatchDlm ∧
    ∀ p ∈ (collectPatches ft dlMaps).1.1, ∃ n n',
      createPatchByDlm ft dlMaps p.patchDlm n = .ok (p, n') := by
  obtain ⟨ps, hps, hmap, hcreated⟩ := each_checkVzpatch h
  rw [List.nil_append] at hps
  rw [collectPatches]
  rw [hps]
  exact ⟨hmap, hcreated⟩

theorem collectPatches_patches {dlMaps : List DlMap} (h : (collectPatches ft dlMaps).2 = 0) :
    (collectPatches ft dlMaps).1.1.map Patch.patchDlm = dlMaps.filter isPatchDlm ∧
    ∀ p ∈ (collectPatches ft dlMaps).1.1, ∃ pi, p.patchDlm.ei.vzpatch = some (.ok pi) ∧
      p.pi.patchBid = pi.patchBid := by
  obtain ⟨hmap, hcreated⟩ := collectPatches_created h
  refine ⟨hmap, fun p hp => ?_⟩
  obtain ⟨n, n', hc⟩ := hcreated p hp
  exact (createPatchByDlm_ok hc).2.2

end Nsb
