import Nsb.Patcher.Release

/-!
# System calls in the process

`process_syscall` runs a system call in the process through compel.  Three
conventions meet here.  `process_syscall` returns -1 and sets `errno` when the remote
call fails, its callers return `-errno`, and `process_link` looks for `MAP_FAILED`,
which is -1.  So it only notices an error whose number is one.

The functions are over machine integers: `int` is `BitVec 32`, `long` and addresses
are `BitVec 64`.  Printing keeps `errno`.  `remoteCall_reports_iff` says for each of
the callers of `process_syscall` when its return value is right.
-/

namespace Nsb

/-- How `compel_syscall` ends: its return value, what it stores in `sret`, and `errno`
behind it. -/
structure CompelSyscall where
  ret : BitVec 32
  sret : BitVec 64
  errno : BitVec 32

namespace Remote

/-- `process_syscall`: the return value, and `errno`. -/
def processSyscall (c : CompelSyscall) : BitVec 64 × BitVec 32 :=
  if c.ret.toInt < 0 then (c.ret.signExtend 64, c.errno)
  else if c.sret.toInt < 0 then (-1, (-c.sret).setWidth 32)
  else (c.sret, c.errno)

/-- `process_map_vma`. -/
def processMapVma (loaded : Bool) (c : CompelSyscall) : BitVec 64 :=
  if loaded then BitVec.ofInt 64 (-EBUSY)
  else
    let (addr, errno) := processSyscall c
    if addr.toInt < 0 then (-errno).signExtend 64 else addr

/-- The calls that only return whether they failed.  The result of
`process_syscall` is cut to an `int`. -/
def processErr (c : CompelSyscall) : BitVec 32 :=
  let (err, errno) := processSyscall c
  if (err.setWidth 32).toInt < 0 then -errno else 0

/-- `process_unmap_vma`. -/
def processUnmapVma (loaded : Bool) (c : CompelSyscall) : BitVec 32 :=
  if loaded then BitVec.ofInt 32 (-EBUSY) else processErr c

/-- `process_close_file`. -/
def processCloseFile (c : CompelSyscall) : BitVec 32 := processErr c

/-- `process_do_open_file`; `write` is the result of writing the path. -/
def processDoOpenFile (write : BitVec 32) (c : CompelSyscall) : BitVec 32 :=
  if write ≠ 0 then write
  else
    let (fd, errno) := processSyscall c
    if (fd.setWidth 32).toInt < 0 then -errno else fd.setWidth 32

/-- `process_open_file`, which only prints the error. -/
def processOpenFile (write : BitVec 32) (c : CompelSyscall) : BitVec 32 := processDoOpenFile write c

/-- What `process_link` leaves: its return value, `ctx->ctl` not NULL, and
`ctx->remote_vma.addr`. -/
structure Linked where
  ret : BitVec 32
  ctl : Bool
  addr : Addr
deriving DecidableEq

/-- `process_link`; `prepare` says whether `compel_prepare` succeeds. -/
def processLink (prepare loaded : Bool) (c : CompelSyscall) (remoteAddr : Addr) : Linked :=
  if !prepare then { ret := -1, ctl := false, addr := remoteAddr }
  else
    let addr := processMapVma loaded c
    if addr = -1 then { ret := -1, ctl := false, addr := remoteAddr }
    else { ret := 0, ctl := true, addr := addr }

end Remote

/-- The step of `process_suspend` that links with the process is this one. -/
theorem processLink_release (o : Outcomes) (s : Held) (loaded : Bool) (c : CompelSyscall)
    (remoteAddr : Addr) (h : o.mapRemote = (Remote.processMapVma loaded c).toInt) :
    Release.processLink o s =
      ({ s with ctl := (Remote.processLink o.prepare loaded c remoteAddr).ctl },
        (Remote.processLink o.prepare loaded c remoteAddr).ret.toInt) := by
  have hneg : o.mapRemote = -1 ↔ Remote.processMapVma loaded c = -1 := by
    rw [h, ← BitVec.toInt_inj]
    rfl
  rw [Release.processLink, Remote.processLink]
  split
  · rfl
  · by_cases hmap : Remote.processMapVma loaded c = -1
    · rw [if_pos (hneg.mpr hmap), if_pos hmap]
      rfl
    · rw [if_neg (fun h => hmap (hneg.mp h)), if_neg hmap]
      rfl

/-! ## What the callers report -/

/-- The callers of `process_syscall`, with what they check in front of it. -/
inductive RemoteCall where
  | mapVma (loaded : Bool)
  | unmapVma (loaded : Bool)
  | openFile (write : BitVec 32)
  | closeFile
  | link (prepare loaded : Bool)

/-- Neither compel nor the remote system call failed. -/
def CompelSyscall.Ok (c : CompelSyscall) : Prop := 0 ≤ c.ret.toInt ∧ 0 ≤ c.sret.toInt

/-- The error as a number that should be negative: `-errno` of compel, or the low half
of what the remote call returned. -/
def CompelSyscall.code (c : CompelSyscall) : BitVec 32 :=
  if c.ret.toInt < 0 then -c.errno else c.sret.setWidth 32

/-- The result of the remote call is negative when it is cut to an `int`. -/
def CompelSyscall.CutNegative (c : CompelSyscall) : Prop := (c.sret.setWidth 32).toInt < 0

instance (c : CompelSyscall) : Decidable c.CutNegative := inferInstanceAs (Decidable (_ < _))

namespace RemoteCall

/-- The remote system call ran and returned no error. -/
def Ran (c : CompelSyscall) : RemoteCall → Prop
  | mapVma loaded => loaded = false ∧ c.Ok
  | unmapVma loaded => loaded = false ∧ c.Ok
  | openFile write => write = 0 ∧ c.Ok
  | closeFile => c.Ok
  | link prepare loaded => prepare = true ∧ loaded = false ∧ c.Ok

/-- The caller reports success: an address or a file that is not negative, or zero. -/
def Succeeds (c : CompelSyscall) (remoteAddr : Addr) : RemoteCall → Prop
  | mapVma loaded => 0 ≤ (Remote.processMapVma loaded c).toInt
  | unmapVma loaded => Remote.processUnmapVma loaded c = 0
  | openFile write => 0 ≤ (Remote.processOpenFile write c).toInt
  | closeFile => Remote.processCloseFile c = 0
  | link prepare loaded => (Remote.processLink prepare loaded c remoteAddr).ret = 0

/-- Success is reported exactly when the remote call ran without an error, and behind
`process_link` the region is where it was mapped. -/
def Reports (c : CompelSyscall) (remoteAddr : Addr) (call : RemoteCall) : Prop :=
  (call.Succeeds c remoteAddr ↔ call.Ran c) ∧
    ∀ prepare loaded, call = link prepare loaded →
      (Remote.processLink prepare loaded c remoteAddr).ret = 0 →
        (Remote.processLink prepare loaded c remoteAddr).addr = c.sret

/-- When the return value of a caller is right.  The error has to be one that the
caller tells from a result, and a result that is cut to an `int` must not look like
an error. -/
def Sound (c : CompelSyscall) : RemoteCall → Prop
  | mapVma loaded => loaded = false → ¬ c.Ok → c.code.toInt < 0
  | unmapVma loaded => loaded = false →
      (¬ c.Ok → c.code ≠ 0) ∧ (c.Ok → c.CutNegative → c.errno = 0)
  | openFile write => (write ≠ 0 → write.toInt < 0) ∧
      (write = 0 → (¬ c.Ok → c.code.toInt < 0) ∧
        (c.Ok → c.CutNegative → 0 ≤ (-c.errno).toInt))
  | closeFile => (¬ c.Ok → c.code ≠ 0) ∧ (c.Ok → c.CutNegative → c.errno = 0)
  | link prepare loaded => prepare = true → loaded = false ∧ (¬ c.Ok → c.code = -1)

end RemoteCall

/-! ## One call -/

variable {c : CompelSyscall}

/-- What `process_syscall` makes of an outcome: the result of the remote call, or a
number that is negative also as an `int`, with the error in `errno`. -/
theorem processSyscall_cases (c : CompelSyscall) :
    (c.Ok ∧ Remote.processSyscall c = (c.sret, c.errno)) ∨
    (¬ c.Ok ∧ ∃ ret errno, Remote.processSyscall c = (ret, errno) ∧ ret.toInt < 0 ∧
      (ret.setWidth 32).toInt < 0 ∧ -errno = c.code) := by
  rw [CompelSyscall.Ok, CompelSyscall.code, Remote.processSyscall]
  by_cases hret : c.ret.toInt < 0
  · have hlow : (c.ret.signExtend 64).setWidth 32 = c.ret := by
      ext i hi
      simp [BitVec.getLsbD_signExtend, hi]
      omega
    refine .inr ⟨fun h => absurd h.1 (Int.not_le.mpr hret), c.ret.signExtend 64, c.errno,
      if_pos hret, ?_, by rw [hlow]; exact hret, by rw [if_pos hret]⟩
    rw [BitVec.toInt_signExtend_of_le (by decide)]
    exact hret
  · rw [if_neg hret, if_neg hret]
    by_cases hsret : c.sret.toInt < 0
    · refine .inr ⟨fun h => absurd h.2 (Int.not_le.mpr hsret), -1, (-c.sret).setWidth 32,
        if_pos hsret, by decide, by decide, ?_⟩
      bv_omega
    · exact .inl ⟨⟨Int.not_lt.mp hret, Int.not_lt.mp hsret⟩, if_neg hsret⟩

theorem processMapVma_of_not_ok (h : ¬ c.Ok) :
    Remote.processMapVma false c = c.code.signExtend 64 := by
  rcases processSyscall_cases c with ⟨hok, -⟩ | ⟨-, ret, errno, hcall, hneg, -, hcode⟩
  · exact absurd hok h
  · rw [Remote.processMapVma, if_neg Bool.false_ne_true, hcall]
    dsimp only
    rw [if_pos hneg, hcode]

theorem processMapVma_of_ok (h : c.Ok) : Remote.processMapVma false c = c.sret := by
  rcases processSyscall_cases c with ⟨-, hcall⟩ | ⟨hno, -⟩
  · rw [Remote.processMapVma, if_neg Bool.false_ne_true, hcall]
    exact if_neg (Int.not_lt.mpr h.2)
  · exact absurd h hno

theorem processErr_of_not_ok (h : ¬ c.Ok) : Remote.processErr c = c.code := by
  rcases processSyscall_cases c with ⟨hok, -⟩ | ⟨-, ret, errno, hcall, -, hneg, hcode⟩
  · exact absurd hok h
  · rw [Remote.processErr, hcall]
    dsimp only
    rw [if_pos hneg, hcode]

theorem processErr_of_ok (h : c.Ok) :
    Remote.processErr c = if c.CutNegative then -c.errno else 0 := by
  rcases processSyscall_cases c with ⟨-, hcall⟩ | ⟨hno, -⟩
  · rw [Remote.processErr, hcall]
    rfl
  · exact absurd h hno

theorem processOpenFile_of_not_ok (h : ¬ c.Ok) : Remote.processOpenFile 0 c = c.code := by
  rcases processSyscall_cases c with ⟨hok, -⟩ | ⟨-, ret, errno, hcall, -, hneg, hcode⟩
  · exact absurd hok h
  · rw [Remote.processOpenFile, Remote.processDoOpenFile, if_neg (not_not_intro rfl), hcall]
    dsimp only
    rw [if_pos hneg, hcode]

theorem processOpenFile_of_ok (h : c.Ok) :
    Remote.processOpenFile 0 c =
      if c.CutNegative then -c.errno else c.sret.setWidth 32 := by
  rcases processSyscall_cases c with ⟨-, hcall⟩ | ⟨hno, -⟩
  · rw [Remote.processOpenFile, Remote.processDoOpenFile, if_neg (not_not_intro rfl), hcall]
    rfl
  · exact absurd h hno

/-! ## Each caller -/

theorem mapVma_reports_iff (loaded : Bool) (remoteAddr : Addr) :
    (RemoteCall.mapVma loaded).Reports c remoteAddr ↔ (RemoteCall.mapVma loaded).Sound c := by
  simp only [RemoteCall.Reports, RemoteCall.Succeeds, RemoteCall.Ran, RemoteCall.Sound,
    reduceCtorEq, IsEmpty.forall_iff, implies_true, and_true]
  cases loaded with
  | true =>
      have hbusy : ¬ 0 ≤ (Remote.processMapVma true c).toInt := by
        show ¬ 0 ≤ (BitVec.ofInt 64 (-EBUSY)).toInt
        decide
      simp [hbusy]
  | false =>
      by_cases hok : c.Ok
      · simp [processMapVma_of_ok hok, hok, hok.2]
      · rw [processMapVma_of_not_ok hok, BitVec.toInt_signExtend_of_le (by decide)]
        simp [hok]

/-- The callers that return zero or an error. -/
theorem processErr_iff :
    (Remote.processErr c = 0 ↔ c.Ok) ↔
      (¬ c.Ok → c.code ≠ 0) ∧ (c.Ok → c.CutNegative → c.errno = 0) := by
  by_cases hok : c.Ok
  · rw [processErr_of_ok hok]
    by_cases hcut : c.CutNegative
    · simp [hok, hcut]
    · simp [hok, hcut]
  · rw [processErr_of_not_ok hok]
    simp [hok]

theorem unmapVma_reports_iff (loaded : Bool) (remoteAddr : Addr) :
    (RemoteCall.unmapVma loaded).Reports c remoteAddr ↔ (RemoteCall.unmapVma loaded).Sound c := by
  simp only [RemoteCall.Reports, RemoteCall.Succeeds, RemoteCall.Ran, RemoteCall.Sound,
    reduceCtorEq, IsEmpty.forall_iff, implies_true, and_true]
  cases loaded with
  | true =>
      have hbusy : Remote.processUnmapVma true c ≠ 0 := by
        show BitVec.ofInt 32 (-EBUSY) ≠ 0
        decide
      simp only [hbusy, Bool.true_eq_false, false_and, IsEmpty.forall_iff]
  | false =>
      have hcall : Remote.processUnmapVma false c = Remote.processErr c := rfl
      simp only [hcall, true_and, forall_const]
      exact processErr_iff

theorem closeFile_reports_iff (remoteAddr : Addr) :
    RemoteCall.closeFile.Reports c remoteAddr ↔ RemoteCall.closeFile.Sound c := by
  simp only [RemoteCall.Reports, RemoteCall.Succeeds, RemoteCall.Ran, RemoteCall.Sound,
    reduceCtorEq, IsEmpty.forall_iff, implies_true, and_true]
  exact processErr_iff

theorem openFile_reports_iff (write : BitVec 32) (remoteAddr : Addr) :
    (RemoteCall.openFile write).Reports c remoteAddr ↔ (RemoteCall.openFile write).Sound c := by
  simp only [RemoteCall.Reports, RemoteCall.Succeeds, RemoteCall.Ran, RemoteCall.Sound,
    reduceCtorEq, IsEmpty.forall_iff, implies_true, and_true]
  by_cases hwrite : write = 0
  · rw [hwrite]
    by_cases hok : c.Ok
    · rw [processOpenFile_of_ok hok]
      by_cases hcut : c.CutNegative
      · simp [hok, hcut]
      · have hpos : 0 ≤ (c.sret.setWidth 32).toInt := Int.not_lt.mp hcut
        rw [if_neg hcut]
        simp only [hok, hcut, hpos]
        simp
    · rw [processOpenFile_of_not_ok hok]
      simp [hok]
  · have hcall : Remote.processOpenFile write c = write := if_pos hwrite
    simp only [hcall, hwrite, false_and, iff_false, not_false_eq_true, forall_const,
      IsEmpty.forall_iff, and_true, Int.not_le, ne_eq]

/-- With a control, `process_link` fails exactly when the mapping is `MAP_FAILED`. -/
theorem processLink_ret (loaded : Bool) (c : CompelSyscall) (remoteAddr : Addr) :
    ((Remote.processLink true loaded c remoteAddr).ret = 0 ↔
      Remote.processMapVma loaded c ≠ -1) ∧
    ((Remote.processLink true loaded c remoteAddr).ret = 0 →
      (Remote.processLink true loaded c remoteAddr).addr = Remote.processMapVma loaded c) := by
  by_cases hmap : Remote.processMapVma loaded c = -1
  · have hlink : Remote.processLink true loaded c remoteAddr =
        { ret := -1, ctl := false, addr := remoteAddr } := if_pos hmap
    have hne : ¬ (-1 : BitVec 32) = 0 := by decide
    rw [hlink]
    exact ⟨iff_of_false hne (not_not_intro hmap), fun h => absurd h hne⟩
  · have hlink : Remote.processLink true loaded c remoteAddr =
        { ret := 0, ctl := true, addr := Remote.processMapVma loaded c } := if_neg hmap
    rw [hlink]
    exact ⟨iff_of_true rfl hmap, fun _ => rfl⟩

theorem signExtend_eq_neg_one {x : BitVec 32} : x.signExtend 64 = -1 ↔ x = -1 := by
  rw [← BitVec.toInt_inj, ← BitVec.toInt_inj, BitVec.toInt_signExtend_of_le (by decide)]
  rfl

theorem link_reports_iff (prepare loaded : Bool) (remoteAddr : Addr) :
    (RemoteCall.link prepare loaded).Reports c remoteAddr ↔
      (RemoteCall.link prepare loaded).Sound c := by
  have hreports : (RemoteCall.link prepare loaded).Reports c remoteAddr ↔
      ((Remote.processLink prepare loaded c remoteAddr).ret = 0 ↔
        prepare = true ∧ loaded = false ∧ c.Ok) ∧
      ((Remote.processLink prepare loaded c remoteAddr).ret = 0 →
        (Remote.processLink prepare loaded c remoteAddr).addr = c.sret) := by
    refine and_congr_right fun _ => ⟨fun h => h prepare loaded rfl, ?_⟩
    intro h prepare' loaded' heq
    cases heq
    exact h
  rw [hreports, RemoteCall.Sound]
  cases prepare with
  | false =>
      have hret : (Remote.processLink false loaded c remoteAddr).ret ≠ 0 := by
        show (-1 : BitVec 32) ≠ 0
        decide
      simp only [hret, Bool.false_eq_true, false_and, IsEmpty.forall_iff, and_true]
  | true =>
      obtain ⟨hret, haddr⟩ := processLink_ret loaded c remoteAddr
      cases loaded with
      | true =>
          -- `-EBUSY` is no `MAP_FAILED`
          have hbusy : Remote.processMapVma true c ≠ -1 := by
            show BitVec.ofInt 64 (-EBUSY) ≠ -1
            decide
          refine iff_of_false (fun h => ?_) fun h => Bool.noConfusion (h rfl).1
          exact Bool.noConfusion (h.1.mp (hret.mpr hbusy)).2.1
      | false =>
          by_cases hok : c.Ok
          · have hmap := processMapVma_of_ok hok
            have hne : c.sret ≠ -1 := by
              intro heq
              have hpos := hok.2
              rw [heq] at hpos
              exact absurd hpos (by decide)
            rw [hmap] at hret haddr
            exact iff_of_true ⟨iff_of_true (hret.mpr hne) ⟨rfl, rfl, hok⟩, haddr⟩
              fun _ => ⟨rfl, fun h => absurd hok h⟩
          · rw [processMapVma_of_not_ok hok, ne_eq, signExtend_eq_neg_one] at hret
            simp only [hret, hok, and_false, iff_false, not_not, not_false_eq_true, forall_const,
              true_and]
            exact ⟨fun h => h.1, fun h => ⟨h, fun hne => absurd h hne⟩⟩

/-- The return value of a call in the process is right exactly under the conditions of
`Sound`. -/
theorem remoteCall_reports_iff (call : RemoteCall) (c : CompelSyscall) (remoteAddr : Addr) :
    call.Reports c remoteAddr ↔ call.Sound c := by
  cases call with
  | mapVma loaded => exact mapVma_reports_iff loaded remoteAddr
  | unmapVma loaded => exact unmapVma_reports_iff loaded remoteAddr
  | openFile write => exact openFile_reports_iff write remoteAddr
  | closeFile => exact closeFile_reports_iff remoteAddr
  | link prepare loaded => exact link_reports_iff prepare loaded remoteAddr

/-- The remote `mmap` of `process_link` fails with `ENOMEM`, and success is reported,
with the region at address -12. -/
theorem link_enomem_succeeds :
    Remote.processLink true false { ret := 0, sret := -12, errno := 0 } 0 =
      { ret := 0, ctl := true, addr := -12 } ∧
    ¬ (RemoteCall.link true false).Reports { ret := 0, sret := -12, errno := 0 } 0 := by
  refine ⟨by decide, fun h => ?_⟩
  have hran := (h.1.mp (by show (Remote.processLink _ _ _ _).ret = 0; decide)).2.2
  exact absurd hran.2 (by decide)

end Nsb
