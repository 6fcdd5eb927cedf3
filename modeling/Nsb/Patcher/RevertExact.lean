import Nsb.Patcher.Revert

/-!
# Taking one patch out of a stack

The patches of one target in the order of `applied_patches`.  A function holds the
jump of the last patch that has one for it.  `patch_revert_func_jumps` on any patch
of the list leaves the functions as the list without it has them: where another
patch is on top the bytes differ from the jump and nothing is written, and elsewhere
`find_previous_func_jump` goes back through the list.
-/

namespace Nsb

/-- The jump at a function of the last patch that has one. -/
def lastJump (ps : List Patch) (addr : Addr) : Option FuncJump :=
  ps.reverse.findSome? fun p => findFunctionJump p.pi addr

/-- The bytes of a function under some patches. -/
def stackedBytes (orig : Addr → Word) (ps : List Patch) (addr : Addr) : Word :=
  ((lastJump ps addr).map FuncJump.funcJump).getD (orig addr)

/-- The patches of one target.  A patch has at most one jump for a function, the
functions have room for a jump and are apart from each other, the jumps of different
patches differ, and each jump has kept the code of the file.  A jump that was not
tuned has no function. -/
structure JumpStack (orig : Addr → Word) (ps : List Patch) : Prop where
  ids : ps.Pairwise fun p q => p.patchDlm.id ≠ q.patchDlm.id
  target : ∀ p ∈ ps, ∀ q ∈ ps, p.targetDlm.map DlMap.id = q.targetDlm.map DlMap.id
  once : ∀ p ∈ ps, p.pi.funcJumps.Pairwise fun a b =>
    a.funcAddr ≠ 0 → a.funcAddr ≠ b.funcAddr
  size : ∀ p ∈ ps, ∀ fj ∈ p.pi.funcJumps, fj.funcAddr ≠ 0 → 8 ≤ fj.funcSize.toNat
  apart : ∀ p ∈ ps, ∀ q ∈ ps, ∀ a ∈ p.pi.funcJumps, ∀ b ∈ q.pi.funcJumps, a.funcAddr ≠ 0 →
    b.funcAddr ≠ 0 → a.funcAddr ≠ b.funcAddr →
      Apart a.funcAddr a.funcSize.toNat b.funcAddr b.funcSize.toNat
  differ : ps.Pairwise fun p q => ∀ a ∈ p.pi.funcJumps, ∀ b ∈ q.pi.funcJumps,
    a.funcAddr ≠ 0 → a.funcAddr = b.funcAddr → a.funcJump ≠ b.funcJump
  code : ∀ p ∈ ps, ∀ fj ∈ p.pi.funcJumps, fj.funcAddr ≠ 0 → fj.code = orig fj.funcAddr

/-- Every patched function holds the bytes of a stack. -/
def HoldsStack (orig : Addr → Word) (all ps : List Patch) (m : Mem) : Prop :=
  ∀ p ∈ all, ∀ fj ∈ p.pi.funcJumps, fj.funcAddr ≠ 0 →
    m.read fj.funcAddr 8 = stackedBytes orig ps fj.funcAddr

/-! ## The last jump -/

variable {orig : Addr → Word} {front back : List Patch} {p : Patch} {addr : Addr} {fj : FuncJump}

theorem lastJump_remove (front back : List Patch) (p : Patch) (addr : Addr) :
    lastJump (front ++ p :: back) addr =
      (lastJump back addr).or ((findFunctionJump p.pi addr).or (lastJump front addr)) := by
  simp only [lastJump, List.reverse_append, List.reverse_cons, List.append_assoc,
    List.singleton_append, List.findSome?_append, List.findSome?_cons]
  cases findFunctionJump p.pi addr <;> rfl

theorem lastJump_append (front back : List Patch) (addr : Addr) :
    lastJump (front ++ back) addr = (lastJump back addr).or (lastJump front addr) := by
  simp [lastJump, List.findSome?_append]

theorem findFunctionJump_spec {pi : PatchInfo} (h : findFunctionJump pi addr = some fj) :
    fj ∈ pi.funcJumps ∧ fj.funcAddr = addr := by
  refine ⟨List.mem_of_find?_eq_some h, ?_⟩
  have heq := List.find?_some h
  exact beq_iff_eq.mp heq

theorem findFunctionJump_none {pi : PatchInfo} (h : findFunctionJump pi addr = none)
    (hfj : fj ∈ pi.funcJumps) : fj.funcAddr ≠ addr := by
  have hne := List.find?_eq_none.mp h fj hfj
  simpa using hne

theorem lastJump_spec {ps : List Patch} (h : lastJump ps addr = some fj) :
    ∃ p ∈ ps, fj ∈ p.pi.funcJumps ∧ fj.funcAddr = addr := by
  obtain ⟨p, hp, hfind⟩ := List.exists_of_findSome?_eq_some h
  exact ⟨p, List.mem_reverse.mp hp, findFunctionJump_spec hfind⟩

/-- The patches that `find_previous_func_jump` goes over are those in front. -/
theorem findPreviousFuncJump_eq (stack : JumpStack orig (front ++ p :: back)) (fj : FuncJump) :
    findPreviousFuncJump (front ++ p :: back) p fj = lastJump front fj.funcAddr := by
  rw [findPreviousFuncJump, patchesBefore_eq stack.ids, lastJump, ← List.head?_filterMap,
    ← List.head?_filterMap]
  refine congrArg List.head? (List.filterMap_congr fun q hq => if_pos ?_)
  exact stack.target q (by simp [List.mem_reverse.mp hq]) p (by simp)

/-- The bytes that are written back are those of the patches in front. -/
theorem restoredCode_front (stack : JumpStack orig (front ++ p :: back))
    (hfj : fj ∈ p.pi.funcJumps) (h0 : fj.funcAddr ≠ 0) :
    restoredCode (front ++ p :: back) p fj = stackedBytes orig front fj.funcAddr := by
  rw [restoredCode, findPreviousFuncJump_eq stack, stackedBytes]
  cases lastJump front fj.funcAddr with
  | none => exact stack.code p (by simp) fj hfj h0
  | some prev => rfl

/-! ## The entries -/

/-- The entries of different functions are apart. -/
theorem JumpStack.entries_apart {ps : List Patch} (stack : JumpStack orig ps) {q : Patch}
    {a b : FuncJump} (hp : p ∈ ps) (hq : q ∈ ps) (ha : a ∈ p.pi.funcJumps)
    (hb : b ∈ q.pi.funcJumps) (hne : a.funcAddr ≠ b.funcAddr) : EntriesApart a b := fun ha0 hb0 =>
  (stack.apart p hp q hq a ha b hb ha0 hb0 hne).mono (stack.size p hp a ha ha0)
    (stack.size q hq b hb hb0)

theorem JumpStack.jumps_apart {ps : List Patch} (stack : JumpStack orig ps) (hp : p ∈ ps) :
    p.pi.funcJumps.Pairwise EntriesApart := by
  refine (stack.once p hp).imp_of_mem ?_
  intro a b ha hb hne ha0
  exact stack.entries_apart hp hp ha hb (hne ha0) ha0

/-! ## Reverting -/

variable {ft : Faults} {ctx : Ctx} {w : World}

/-- A function of the patch, after its jumps are reverted. -/
theorem revert_own_function (stack : JumpStack orig (front ++ p :: back))
    (happlied : ctx.appliedPatches = front ++ p :: back) (hdry : ctx.dryRun = false)
    (hread : ∀ n, ft.read n = 0) (hwrite : ∀ n, ft.write n = 0) (hfj : fj ∈ p.pi.funcJumps)
    (h0 : fj.funcAddr ≠ 0) (hfind : findFunctionJump p.pi fj.funcAddr = some fj)
    (hbytes : w.mem.read fj.funcAddr 8 = stackedBytes orig (front ++ p :: back) fj.funcAddr) :
    (patchRevertFuncJumps ft ctx p w).1.mem.read fj.funcAddr 8 =
      stackedBytes orig (front ++ back) fj.funcAddr := by
  have hmem : (patchRevertFuncJumps ft ctx p w).1.mem.read fj.funcAddr 8 = _ :=
    (each_revert_ok hdry hread hwrite (stack.jumps_apart (by simp))).2 fj hfj h0
  rw [hmem, happlied, restoredCode_front stack hfj h0]
  rw [stackedBytes, lastJump_remove, hfind] at hbytes
  rw [stackedBytes, stackedBytes, lastJump_append]
  cases hback : lastJump back fj.funcAddr with
  | none =>
      -- the patch is on top
      rw [hback] at hbytes
      rw [if_pos (inPlace_iff.mpr ⟨h0, hbytes⟩)]
      rfl
  | some top =>
      rw [hback] at hbytes
      obtain ⟨q, hq, htop, haddr⟩ := lastJump_spec hback
      have hne : fj.funcJump ≠ top.funcJump :=
        List.rel_of_pairwise_cons (List.pairwise_append.mp stack.differ).2.1 hq fj hfj top htop
          h0 haddr.symm
      have hplace : ¬ inPlace w.mem fj = true := by
        rw [inPlace_iff, hbytes]
        exact fun h => hne h.2.symm
      rw [if_neg hplace, hbytes]
      rfl

/-- A function that the patch has no jump for. -/
theorem revert_other_function (stack : JumpStack orig (front ++ p :: back))
    (hdry : ctx.dryRun = false) {q : Patch} (hq : q ∈ front ++ p :: back)
    (hfj : fj ∈ q.pi.funcJumps) (h0 : fj.funcAddr ≠ 0)
    (hfind : findFunctionJump p.pi fj.funcAddr = none)
    (hbytes : w.mem.read fj.funcAddr 8 = stackedBytes orig (front ++ p :: back) fj.funcAddr) :
    (patchRevertFuncJumps ft ctx p w).1.mem.read fj.funcAddr 8 =
      stackedBytes orig (front ++ back) fj.funcAddr := by
  have hkeep : (patchRevertFuncJumps ft ctx p w).1.mem.read fj.funcAddr 8 =
      w.mem.read fj.funcAddr 8 :=
    each_revert_read hdry h0 fun a ha =>
      stack.entries_apart (by simp) hq ha hfj (findFunctionJump_none hfind ha)
  rw [hkeep, hbytes, stackedBytes, stackedBytes, lastJump_remove, lastJump_append, hfind]
  rfl

/-- Taking a patch out leaves every function as the other patches have it, and no
other byte changes. -/
theorem patchRevertFuncJumps_exact (stack : JumpStack orig (front ++ p :: back))
    (happlied : ctx.appliedPatches = front ++ p :: back) (hdry : ctx.dryRun = false)
    (hread : ∀ n, ft.read n = 0) (hwrite : ∀ n, ft.write n = 0)
    (hholds : HoldsStack orig (front ++ p :: back) (front ++ p :: back) w.mem) :
    HoldsStack orig (front ++ p :: back) (front ++ back) (patchRevertFuncJumps ft ctx p w).1.mem ∧
      ∀ x : Addr, (∀ q ∈ front ++ p :: back, ∀ fj ∈ q.pi.funcJumps, fj.funcAddr ≠ 0 →
        ¬ (x - fj.funcAddr).toNat < 8) →
        (patchRevertFuncJumps ft ctx p w).1.mem x = w.mem x := by
  refine ⟨fun q hq fj hfj h0 => ?_, fun x hx => ?_⟩
  · have hbytes := hholds q hq fj hfj h0
    cases hfind : findFunctionJump p.pi fj.funcAddr with
    | none => exact revert_other_function stack hdry hq hfj h0 hfind hbytes
    | some own =>
        obtain ⟨hown, haddr⟩ := findFunctionJump_spec hfind
        rw [← haddr] at hfind hbytes h0 ⊢
        exact revert_own_function stack happlied hdry hread hwrite hown h0 hfind hbytes
  · refine Mem.eq_of_read_byte (each_revert_frame hdry fun a ha h0 => ?_)
    exact Apart.byte (by decide) (hx p (by simp) a ha h0)

/-- A later jump for the same function. -/
def secondJump : FuncJump :=
  { funcValue := 0x10, patchValue := 0x40, funcAddr := 0x400010
    code := wordOf 0x9090c35de5894855
    funcJump := wordOf 0x40002be9 }

def secondPatch : Patch :=
  { appliedPatch with
    pi := { appliedPatch.pi with funcJumps := [secondJump] }
    patchDlm := { id := 2, path := some "second.so", ei := {} } }

def stackCtx : Ctx := { appliedCtx with appliedPatches := [appliedPatch, secondPatch] }

def stackWorld : World := { mem := Mem.write (fun _ => 0) 0x400010 secondJump.funcJump }

/-- Without the second patch the function jumps to the first one. -/
theorem secondPatch_uncovers_first :
    ∃ orig : Addr → Word, JumpStack orig ([appliedPatch] ++ secondPatch :: []) ∧
      HoldsStack orig [appliedPatch, secondPatch] [appliedPatch, secondPatch] stackWorld.mem ∧
      HoldsStack orig [appliedPatch, secondPatch] [appliedPatch]
        (patchRevertFuncJumps {} stackCtx secondPatch stackWorld).1.mem := by
  have hstack : JumpStack (fun _ => secondJump.code) ([appliedPatch] ++ secondPatch :: []) := by
    constructor <;> decide
  have hholds : HoldsStack (fun _ => secondJump.code) [appliedPatch, secondPatch]
      [appliedPatch, secondPatch] stackWorld.mem := by
    unfold HoldsStack
    decide
  have happlied : stackCtx.appliedPatches = [appliedPatch] ++ secondPatch :: [] := rfl
  exact ⟨_, hstack, hholds,
    (patchRevertFuncJumps_exact hstack happlied rfl (fun _ => rfl) (fun _ => rfl) hholds).1⟩

end Nsb
