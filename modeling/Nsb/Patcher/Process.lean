import Nsb.Patcher.DlMap

/-!
# Calls into the process

The functions of `patcher/process.c`, `patcher/service.c` and
`plugins/service.c` through which nsb changes the process: eight-byte reads and
writes of its memory, and mapping and unmapping of a `dl_map`, either by system
calls in the process or by a request to the injected service.

`World` is the process together with a count of the calls made so far.  Which
calls fail is given by a value of `Faults`: the `n`-th call of a kind fails with
`errno` equal to the `n`-th number of that kind, unless the number is zero.

Writes to the scratch region `remote_vma` may fail as any write does.  The bytes
of that region are nsb's own and are not part of `World.mem`.
-/

namespace Nsb

/-- How the calls of nsb end.  `read` and `write` are `process_read_data` and
`process_write_data`, `sys` the system calls and the messages to the service.
`file` are the reads of `read_func_jump_code`; when one fails, `fileGot` bytes
were read.  `stale` is what a response buffer holds when nothing was received,
`junk` what an uninitialised buffer on the stack holds. -/
structure Faults where
  read : Nat → Nat := fun _ => 0
  write : Nat → Nat := fun _ => 0
  file : Nat → Nat := fun _ => 0
  fileGot : Nat → Nat := fun _ => 0
  sys : Nat → Nat := fun _ => 0
  stale : Int := 0
  junk : Word := Vector.replicate 8 0

/-- The memory and the mappings of the process, and the calls so far.  `writes`
are the successful writes to the memory, in order. -/
structure World where
  mem : Mem
  vmas : List Vma := []
  writes : List (Addr × Word) := []
  nread : Nat := 0
  nwrite : Nat := 0
  nsys : Nat := 0

/-- `struct process_ctx_s` while a patch is applied or reverted.  `pi` and
`targetDlm` are `PI(ctx)` and `TDLM(ctx)`; `serviceDlm` is the object of the
injected service, which is in no list. -/
structure Ctx where
  dryRun : Bool := false
  serviceLoaded : Bool := false
  patchfile : String
  patchEi : ElfInfo
  vmas : List Vma
  dlMaps : List DlMap
  serviceDlm : Option DlMap := none
  sentinel : Addr := 0
  appliedPatches : List Patch := []
  neededList : List DlMap := []
  pi : PatchInfo
  targetDlm : DlMap

variable (ft : Faults)

/-! ## Memory -/

/-- `process_read_data` of eight bytes. -/
def processReadData (addr : Addr) (w : World) : World × Except Int Word :=
  let w' := { w with nread := w.nread + 1 }
  if ft.read w.nread = 0 then (w', .ok (w.mem.read addr 8)) else (w', .error (-ft.read w.nread))

/-- `process_write_data` of eight bytes. -/
def processWriteData (addr : Addr) (data : Word) (w : World) : World × Int :=
  let w' := { w with nwrite := w.nwrite + 1 }
  if ft.write w.nwrite = 0 then
    ({ w' with mem := w.mem.write addr data, writes := w.writes ++ [(addr, data)] }, 0)
  else (w', -ft.write w.nwrite)

/-- `process_write_data` to the scratch region. -/
def scratchWriteData (w : World) : World × Int :=
  ({ w with nwrite := w.nwrite + 1 }, -ft.write w.nwrite)

/-! ## Mappings -/

/-- What is left of a mapping when the range of `n` bytes at `a` is unmapped. -/
def Vma.cut (a : Addr) (n : BitVec 64) (v : Vma) : List Vma :=
  let s := v.addr.toNat
  let e := v.addr.toNat + v.length.toNat
  let lo := a.toNat
  let hi := a.toNat + n.toNat
  if e ≤ lo ∨ hi ≤ s then [v]
  else
    (if s < lo then [{ v with length := BitVec.ofNat 64 (lo - s) }] else []) ++
    (if hi < e then
      [{ v with addr := BitVec.ofNat 64 hi, length := BitVec.ofNat 64 (e - hi),
                offset := v.offset + BitVec.ofNat 64 (hi - s) }] else [])

/-- `munmap` in the process. -/
def World.munmap (a : Addr) (n : BitVec 64) (w : World) : World :=
  { w with vmas := w.vmas.flatMap (Vma.cut a n) }

/-- Insert a mapping into the address space, which is sorted. -/
def insertMapping (v : Vma) (l : List Vma) : List Vma :=
  l.takeWhile (fun u => u.addr < v.addr) ++ v :: l.dropWhile (fun u => u.addr < v.addr)

/-- A segment as it shows in `/proc/PID/maps` once it is mapped. -/
def fileVma (path : Option String) (ei : ElfInfo) (v : Vma) : Vma :=
  { v with flags := MAP_PRIVATE, path := path, mapFile := some (.elf ei), dlm := none }

/-- `mmap` of a file in the process, with `MAP_FIXED`. -/
def World.mmap (path : Option String) (ei : ElfInfo) (v : Vma) (w : World) : World :=
  { w.munmap v.addr v.length with
    vmas := insertMapping (fileVma path ei v) (w.munmap v.addr v.length).vmas
    mem := w.mem.fill v.addr v.length.toNat fun d => ei.data (v.offset + d) }

/-- A system call of the process with the given effect. -/
def processSyscall (effect : World → World) (w : World) : World × Int :=
  let w' := { w with nsys := w.nsys + 1 }
  if ft.sys w.nsys = 0 then (effect w', 0) else (w', -ft.sys w.nsys)

/-- `process_map_vma`. -/
def processMapVma (ctx : Ctx) (dlm : DlMap) (vma : Vma) (w : World) : World × Int :=
  if ctx.serviceLoaded then (w, -EBUSY) else processSyscall ft (World.mmap dlm.path dlm.ei vma) w

/-- `process_unmap_vma`. -/
def processUnmapVma (ctx : Ctx) (vma : Vma) (w : World) : World × Int :=
  if ctx.serviceLoaded then (w, -EBUSY) else processSyscall ft (World.munmap vma.addr vma.length) w

/-- `process_open_file`: the path goes through the scratch region. -/
def processOpenFile (w : World) : World × Int :=
  let (w, err) := scratchWriteData ft w
  if err ≠ 0 then (w, err) else processSyscall ft id w

/-- The error path of `process_mmap_dlm_manual`. -/
def unmapDone (ctx : Ctx) (vmas : List Vma) (w : World) : World :=
  vmas.foldl (fun w vma => (processUnmapVma ft ctx vma w).1) w

/-- The loop of `process_mmap_dlm_manual`: `done` are the mappings made so far,
the last one first. -/
def mmapDlmLoop (ctx : Ctx) (dlm : DlMap) : List Vma → List Vma → World → World × Int
  | _, [], w => (w, 0)
  | done, vma :: l, w =>
      let (w, err) := processMapVma ft ctx dlm vma w
      if err < 0 then (unmapDone ft ctx done w, err) else mmapDlmLoop ctx dlm (vma :: done) l w

/-- `process_mmap_dlm_manual`. -/
def processMmapDlmManual (ctx : Ctx) (dlm : DlMap) (w : World) : World × Int :=
  let (w, fd) := processOpenFile ft w
  if fd < 0 then (w, fd)
  else
    let (w, err) := mmapDlmLoop ft ctx dlm [] dlm.vmas w
    if err < 0 then (w, err) else ((processSyscall ft id w).1, 0)

/-! ## The service -/

/-- `__service_do`: a call of service code, which is written to the scratch
region first. -/
def serviceDo (code : World → World × Int) (w : World) : World × Int :=
  let (w, err) := scratchWriteData ft w
  if err ≠ 0 then (w, err)
  else
    let (w, err) := processSyscall ft id w
    if err ≠ 0 then (w, err) else code w

/-- A request to the service, the run of its handler, and the answer.  A failing
receive goes unnoticed, since its result is compared as an unsigned number; the
answer is then what the buffer held. -/
def serviceRequest (handler : World → World × Int) (w : World) : World × Int :=
  let (w, err) := processSyscall ft id w
  if err ≠ 0 then (w, err)
  else
    let (w, err) := serviceDo ft (fun w => (w, 0)) w
    if err ≠ 0 then (w, err)
    else
      let (w, ret) := handler w
      let (w, size) := processSyscall ft id w
      let ret := if size < 0 then ft.stale else ret
      (w, if ret < 0 then ret else 0)

/-- `NSB_SERVICE_MMAP_DATA_SIZE_MAX / sizeof(struct nsb_service_mmap_info)`. -/
def maxMmaps : Nat := (8192 - 16) / 32

/-- `NSB_SERVICE_MUNMAP_DATA_SIZE_MAX / sizeof(struct nsb_service_map_addr_info)`. -/
def maxMunmaps : Nat := (8192 - 8) / 16

/-- The loop of `nsb_service_cmd_mmap`.  Its error path starts at the mapping
that failed and leaves out the first one. -/
def serviceMmapLoop (dlm : DlMap) : List Vma → List Vma → World → World × Int
  | _, [], w => (w, 0)
  | done, vma :: l, w =>
      let (w, err) := processSyscall ft (World.mmap dlm.path dlm.ei vma) w
      if err ≠ 0 then
        ((vma :: done).dropLast.foldl
          (fun w v => (processSyscall ft (World.munmap v.addr v.length) w).1) w, err)
      else serviceMmapLoop dlm (vma :: done) l w

/-- `nsb_service_cmd_mmap`: it takes requests for two mappings only. -/
def nsbServiceCmdMmap (dlm : DlMap) (w : World) : World × Int :=
  if dlm.vmas.length > maxMmaps then (w, -E2BIG)
  else if dlm.vmas.length ≠ 2 then (w, -EINVAL)
  else serviceMmapLoop ft dlm [] dlm.vmas w

/-- `nsb_service_cmd_munmap`. -/
def nsbServiceCmdMunmap (dlm : DlMap) (w : World) : World × Int :=
  if dlm.vmas.length > maxMunmaps then (w, -E2BIG)
  else Loop.each (fun v => processSyscall ft (World.munmap v.addr v.length)) dlm.vmas w

/-- `service_mmap_dlm`. -/
def serviceMmapDlm (dlm : DlMap) (w : World) : World × Int :=
  if dlm.vmas.length > maxMmaps then (w, -E2BIG)
  else serviceRequest ft (nsbServiceCmdMmap ft dlm) w

/-- `service_munmap_dlm`. -/
def serviceMunmapDlm (dlm : DlMap) (w : World) : World × Int :=
  if dlm.vmas.length > maxMunmaps then (w, -E2BIG)
  else serviceRequest ft (nsbServiceCmdMunmap ft dlm) w

/-- `process_mmap_dlm_service`: the file descriptor is handed over first. -/
def processMmapDlmService (dlm : DlMap) (w : World) : World × Int :=
  let (w, fd) := serviceDo ft (processSyscall ft id) w
  if fd < 0 then (w, fd) else serviceMmapDlm ft dlm w

/-! ## Objects -/

/-- `process_mmap_dl_map`. -/
def processMmapDlMap (ctx : Ctx) (dlm : DlMap) (w : World) : World × Int :=
  if ctx.dryRun then (w, 0)
  else if ctx.serviceLoaded then processMmapDlmService ft dlm w
  else processMmapDlmManual ft ctx dlm w

/-- `process_munmap_dl_map`. -/
def processMunmapDlMap (ctx : Ctx) (dlm : DlMap) (w : World) : World × Int :=
  if ctx.dryRun then (w, 0)
  else if ctx.serviceLoaded then serviceMunmapDlm ft dlm w
  else Loop.each (processUnmapVma ft ctx) dlm.vmas w

/-! ## Calls that succeed -/

/-- The `n` calls from the `start`-th on succeed. -/
def CallsOk (faults : Nat → Nat) (start n : Nat) : Prop := ∀ k < n, faults (start + k) = 0

theorem callsOk_zero (faults : Nat → Nat) (start : Nat) : CallsOk faults start 0 :=
  fun _ hk => absurd hk (Nat.not_lt_zero _)

theorem callsOk_succ {faults : Nat → Nat} {start n : Nat} :
    CallsOk faults start (n + 1) ↔ faults start = 0 ∧ CallsOk faults (start + 1) n := by
  simp only [CallsOk]
  rw [Nat.forall_lt_succ_left]
  simp only [Nat.add_zero, Nat.add_right_comm, Nat.add_assoc]

theorem callsOk_snoc {faults : Nat → Nat} {start n : Nat} :
    CallsOk faults start (n + 1) ↔ CallsOk faults start n ∧ faults (start + n) = 0 := by
  simp only [CallsOk, Nat.lt_succ_iff_lt_or_eq]
  constructor
  · exact fun h => ⟨fun k hk => h k (.inl hk), h n (.inr rfl)⟩
  · rintro ⟨h, hn⟩ k (hk | rfl)
    · exact h k hk
    · exact hn

theorem callsOk_add {faults : Nat → Nat} {start m n : Nat} :
    CallsOk faults start (m + n) ↔ CallsOk faults start m ∧ CallsOk faults (start + m) n := by
  induction n with
  | zero => simp [callsOk_zero]
  | succ n induction =>
    rw [← Nat.add_assoc, callsOk_snoc, callsOk_snoc, induction, and_assoc, Nat.add_assoc]

/-! ## Series of writes -/

variable {ft}

theorem processWriteData_ok (addr : Addr) (data : Word) {w : World} (h : ft.write w.nwrite = 0) :
    processWriteData ft addr data w =
      ({ w with nwrite := w.nwrite + 1, mem := w.mem.write addr data,
                writes := w.writes ++ [(addr, data)] }, 0) := by
  rw [processWriteData, if_pos h]

theorem processWriteData_error (addr : Addr) (data : Word) {w : World}
    (h : ft.write w.nwrite ≠ 0) :
    processWriteData ft addr data w =
      ({ w with nwrite := w.nwrite + 1 }, -(ft.write w.nwrite : Int)) := by
  rw [processWriteData, if_neg h]

theorem processWriteData_ret (addr : Addr) (data : Word) (w : World) :
    (processWriteData ft addr data w).2 = 0 ↔ ft.write w.nwrite = 0 := by
  by_cases hw : ft.write w.nwrite = 0
  · rw [processWriteData_ok addr data hw]
    exact ⟨fun _ => hw, fun _ => rfl⟩
  · rw [processWriteData_error addr data hw]
    exact ⟨fun h => by omega, fun h => absurd h hw⟩

variable {α : Type} {g : α → Addr × Word}

/-- A series of writes that all succeed. -/
theorem each_write_ok {l : List α} {w : World} (h : CallsOk ft.write w.nwrite l.length) :
    (Loop.each (fun a => processWriteData ft (g a).1 (g a).2) l w).2 = 0 ∧
    (Loop.each (fun a => processWriteData ft (g a).1 (g a).2) l w).1.writes =
      w.writes ++ l.map g ∧
    (Loop.each (fun a => processWriteData ft (g a).1 (g a).2) l w).1.nwrite =
      w.nwrite + l.length := by
  induction l generalizing w with
  | nil => simp
  | cons a l induction =>
      obtain ⟨h0, hl⟩ := callsOk_succ.mp h
      have hstep := processWriteData_ok (g a).1 (g a).2 h0
      rw [Loop.each_cons_ok (by rw [hstep]), hstep]
      obtain ⟨h1, h2, h3⟩ := @induction { w with
        nwrite := w.nwrite + 1, mem := w.mem.write (g a).1 (g a).2,
        writes := w.writes ++ [((g a).1, (g a).2)] } hl
      refine ⟨h1, ?_, ?_⟩
      · rw [h2, List.append_assoc]
        rfl
      · rw [h3, List.length_cons, Nat.add_right_comm, Nat.add_assoc]

/-- A series of writes reports a failing one. -/
theorem each_write_error {l : List α} {w : World} (h : ¬ CallsOk ft.write w.nwrite l.length) :
    (Loop.each (fun a => processWriteData ft (g a).1 (g a).2) l w).2 ≠ 0 := by
  induction l generalizing w with
  | nil => exact absurd (callsOk_zero _ _) h
  | cons a l induction =>
      by_cases h0 : ft.write w.nwrite = 0
      · have hstep := processWriteData_ok (g a).1 (g a).2 h0
        rw [Loop.each_cons_ok (by rw [hstep]), hstep]
        exact induction fun hl => h (callsOk_succ.mpr ⟨h0, hl⟩)
      · have hstep := processWriteData_error (g a).1 (g a).2 h0
        have hret : (processWriteData ft (g a).1 (g a).2 w).2 ≠ 0 := by
          rw [hstep]
          dsimp only
          omega
        have hstop : Loop.each (fun a => processWriteData ft (g a).1 (g a).2) (a :: l) w =
            processWriteData ft (g a).1 (g a).2 w := Loop.each_cons_stop hret
        rw [hstop]
        exact hret

theorem each_write_ret {l : List α} {w : World} :
    (Loop.each (fun a => processWriteData ft (g a).1 (g a).2) l w).2 = 0 ↔
      CallsOk ft.write w.nwrite l.length :=
  ⟨fun h => Classical.byContradiction fun hn => each_write_error hn h, fun h => (each_write_ok h).1⟩

/-- A write changes neither the mappings nor the number of reads, and no bytes
apart from its own. -/
theorem processWriteData_frame (addr : Addr) (data : Word) (w : World) :
    (processWriteData ft addr data w).1.vmas = w.vmas ∧
    (processWriteData ft addr data w).1.nread = w.nread ∧
    ∀ b k, Apart addr 8 b k →
      (processWriteData ft addr data w).1.mem.read b k = w.mem.read b k := by
  by_cases h : ft.write w.nwrite = 0
  · rw [processWriteData_ok addr data h]
    exact ⟨rfl, rfl, fun b k hap => Mem.read_write_apart _ _ hap⟩
  · rw [processWriteData_error addr data h]
    exact ⟨rfl, rfl, fun _ _ _ => rfl⟩

theorem each_write_calls (l : List α) (w : World) :
    (Loop.each (fun a => processWriteData ft (g a).1 (g a).2) l w).1.vmas = w.vmas ∧
    (Loop.each (fun a => processWriteData ft (g a).1 (g a).2) l w).1.nread = w.nread := by
  refine Loop.each_inv (I := fun w' : World => w'.vmas = w.vmas ∧ w'.nread = w.nread) ?_ ⟨rfl, rfl⟩
  intro a _ w' hw'
  obtain ⟨h1, h2, -⟩ := @processWriteData_frame ft (g a).1 (g a).2 w'
  exact ⟨h1.trans hw'.1, h2.trans hw'.2⟩

theorem each_write_apart {l : List α} {w : World} {b : Addr} {k : Nat}
    (h : ∀ a ∈ l, Apart (g a).1 8 b k) :
    (Loop.each (fun a => processWriteData ft (g a).1 (g a).2) l w).1.mem.read b k =
      w.mem.read b k := by
  refine Loop.each_inv (I := fun w' : World => w'.mem.read b k = w.mem.read b k) ?_ rfl
  intro a ha w' hw'
  exact ((@processWriteData_frame ft (g a).1 (g a).2 w').2.2 b k (h a ha)).trans hw'

/-- A block that one of the writes is for: it holds the new bytes when the series
got there. -/
theorem each_write_at {front back : List α} {x : α} {w : World} {b : Addr} (hx : (g x).1 = b)
    (hf : ∀ a ∈ front, Apart (g a).1 8 b 8) (hb : ∀ a ∈ back, Apart (g a).1 8 b 8) :
    (CallsOk ft.write w.nwrite (front.length + 1) →
      (Loop.each (fun a => processWriteData ft (g a).1 (g a).2) (front ++ x :: back) w).1.mem.read
        b 8 = (g x).2) ∧
    (¬ CallsOk ft.write w.nwrite (front.length + 1) →
      (Loop.each (fun a => processWriteData ft (g a).1 (g a).2) (front ++ x :: back) w).1.mem.read
        b 8 = w.mem.read b 8) := by
  rw [callsOk_snoc, Loop.each_append]
  by_cases hfront : CallsOk ft.write w.nwrite front.length
  · obtain ⟨hret, -, hn⟩ := each_write_ok (g := g) hfront
    have hkeep : (Loop.each (fun a => processWriteData ft (g a).1 (g a).2) front w).1.mem.read b 8 =
        w.mem.read b 8 := each_write_apart hf
    rw [if_pos hret]
    generalize Loop.each (fun a => processWriteData ft (g a).1 (g a).2) front w = r at hn hkeep ⊢
    rw [← hn]
    constructor
    · rintro ⟨-, h0⟩
      have hstep := processWriteData_ok (g x).1 (g x).2 h0
      rw [Loop.each_cons_ok (by rw [hstep]), each_write_apart hb, hstep, ← hx]
      exact Mem.read_write_self _ _ _ (by decide)
    · intro hn0
      have h0 : ft.write r.1.nwrite ≠ 0 := fun h0 => hn0 ⟨hfront, h0⟩
      have hstep := processWriteData_error (g x).1 (g x).2 h0
      rw [Loop.each_cons_stop (by rw [hstep]; dsimp only; omega), hstep]
      exact hkeep
  · rw [if_neg (each_write_error hfront)]
    exact ⟨fun h => absurd h.1 hfront, fun _ => each_write_apart hf⟩

end Nsb
