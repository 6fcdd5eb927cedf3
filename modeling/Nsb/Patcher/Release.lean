import Nsb.Patcher.InfectSafety

/-!
# Releasing the process

Once `process_suspend` has returned zero the threads of the process are stopped,
and `patch_process` and `unpatch_process` have to go through `process_resume`
whatever fails in between.  Both always do.  `process_resume` itself is a chain of
steps, though: it shuts down the service, unmaps the scratch region, ends the
control of compel, and only then resumes the threads.  A step that fails ends the
chain, and the threads stay stopped.

The steps are functions on `Held`, which is the part of `process_ctx_s` that says
what has been set up.  How each call ends is given by a value of `Outcomes`.
`released_iff` says for which of them every seized thread gets resumed.
-/

namespace Nsb

/-- What nsb holds of the process.  `ctl` is `ctx->ctl` not NULL, `handle` and
`sock` are a service handle that is not zero and a socket that is not negative.
`resumed` are the threads that `compel_resume_task` was called for. -/
structure Held where
  threads : List ThreadS
  ctl : Bool := false
  handle : Bool := false
  sock : Bool := false
  loaded : Bool := false
  resumed : List Nat := []

/-- How the calls end.  Numbers are return values: `mapRemote` that of
`process_map_vma`, `callDlopen` that of the remote `dlopen` and `callDlclose` that
of the remote `dlclose`, which is cut to an `int`.  `revert` stands for the steps
of `unpatch_process` between `process_cease` and `process_resume`. -/
structure Outcomes where
  prepare : Bool := true
  mapRemote : Int := 0x700000
  collectVmas : Int := 0
  findPatch : Int := 0
  findTargetDlm : Int := 0
  findDlopen : Int := 0
  callDlopen : Int := 1
  serviceCollectVmas : Int := 0
  findRunner : Int := 0
  localConnect : Int := 0
  remoteAccept : Int := 0
  collectNeeded : Int := 0
  collectRelocations : Int := 0
  resolveRelocations : Int := 0
  applyDynBinpatch : Int := 0
  revert : Int := 0
  closeSock : Int := 0
  findDlclose : Int := 0
  callDlclose : BitVec 64 := 0
  unmapRemote : Int := 0
  cure : Int := 0
  resumeTask : Nat → Int := fun _ => 0

namespace Release

variable (o : Outcomes)

/-- A step that sets up nothing of `Held`. -/
def plain (ret : Int) (s : Held) : Held × Int := (s, ret)

/-- Steps in a row, up to the first that fails. -/
def chain (steps : List (Held → Held × Int)) (s : Held) : Held × Int :=
  Loop.each (fun step s => step s) steps s

/-! ## Setting up -/

/-- `process_link`.  `MAP_FAILED` is -1, so of all errors only `-EPERM` is taken
for one. -/
def processLink (s : Held) : Held × Int :=
  if !o.prepare then ({ s with ctl := false }, -1)
  else if o.mapRemote = -1 then ({ s with ctl := false }, -1)
  else ({ s with ctl := true }, 0)

/-- `service_connect`. -/
def serviceConnect : Held → Held × Int :=
  chain [plain o.findRunner,
    fun s => if o.localConnect ≠ 0 then (s, o.localConnect) else ({ s with sock := true }, 0),
    fun s => if o.remoteAccept ≠ 0 then (s, o.remoteAccept) else ({ s with loaded := true }, 0)]

/-- `service_start`. -/
def serviceStart : Held → Held × Int := chain [plain o.serviceCollectVmas, serviceConnect o]

/-- `process_inject_service`. -/
def processInjectService (s : Held) : Held × Int :=
  if o.findDlopen ≠ 0 then (s, o.findDlopen)
  else if o.callDlopen ≤ 0 then (s, -EFAULT)
  else serviceStart o { s with handle := true }

/-! ## Releasing -/

/-- `service_stop`. -/
def serviceStop (s : Held) : Held × Int :=
  if s.sock then
    if o.closeSock ≠ 0 then (s, o.closeSock) else ({ s with sock := false, loaded := false }, 0)
  else ({ s with loaded := false }, 0)

/-- `process_shutdown_service`. -/
def processShutdownService (s : Held) : Held × Int :=
  if !s.handle then (s, 0)
  else
    chain [serviceStop o, plain o.findDlclose,
      fun s => if o.callDlclose.setWidth 32 ≠ 0#32 then (s, -EFAULT)
        else ({ s with handle := false }, 0)] s

/-- `process_unlink`. -/
def processUnlink (s : Held) : Held × Int :=
  if !s.ctl then (s, 0)
  else if s.loaded then (s, -EBUSY)
  else chain [plain o.unmapRemote, plain o.cure] s

/-- `task_cure`. -/
def taskCure (t : ThreadS) (s : Held) : Held × Int :=
  if !t.seized then (s, 0)
  else ({ s with resumed := s.resumed ++ [t.pid] }, if o.resumeTask t.pid ≠ 0 then -1 else 0)

/-- The body of the loop of `process_cure_threads`: an entry is destroyed when its
thread is resumed. -/
def cureThread (t : ThreadS) (s : Held) : Option ThreadS × Held × Int :=
  (if (taskCure o t s).2 = 0 then none else some t, taskCure o t s)

/-- `process_cure_threads`. -/
def processCureThreads (s : Held) : Held × Int :=
  let (threads, s, err) := Loop.eachSafe (cureThread o) s.threads s
  ({ s with threads := threads }, err)

/-- `process_resume`. -/
def processResume : Held → Held × Int :=
  chain [processShutdownService o, processUnlink o, processCureThreads o]

/-! ## The two commands -/

/-- The commands, with `no_plugin` of `patch_process`. -/
inductive Cmd where
  | patch (noPlugin : Bool)
  | unpatch

/-- The steps behind `process_suspend`, up to the call of `process_resume`. -/
def steps : Cmd → List (Held → Held × Int)
  | .patch noPlugin =>
      [processLink o, plain o.collectVmas, plain o.findPatch, plain o.findTargetDlm] ++
      (if noPlugin then [] else [processInjectService o]) ++
      [plain o.collectNeeded, plain o.collectRelocations, plain o.resolveRelocations,
        plain o.applyDynBinpatch]
  | .unpatch => [processLink o, plain o.collectVmas, plain o.revert]

/-- `patch_process` and `unpatch_process` behind `process_suspend`.  A failure in
`process_cease` calls `process_resume` as one behind it does. -/
def run (cmd : Cmd) (s : Held) : Held × Int :=
  let (s, ret) := chain (steps o cmd) s
  let (s, err) := processResume o s
  (s, if ret ≠ 0 then ret else err)

/-! ## What has been set up -/

/-- `process_link` leaves `ctx->ctl` set. -/
def linked : Bool := o.prepare && o.mapRemote != -1

/-- The service library has been loaded into the process. -/
def injected : Cmd → Bool
  | .patch false => linked o && o.collectVmas == 0 && o.findPatch == 0 && o.findTargetDlm == 0 &&
      o.findDlopen == 0 && decide (0 < o.callDlopen)
  | _ => false

/-- nsb has a socket to the service. -/
def connected : Bool := o.serviceCollectVmas == 0 && o.findRunner == 0 && o.localConnect == 0

/-- The state in which `process_resume` is called. -/
structure SetUp (cmd : Cmd) (threads : List ThreadS) (s : Held) : Prop where
  threads : s.threads = threads
  resumed : s.resumed = []
  ctl : s.ctl = linked o
  handle : s.handle = injected o cmd
  sock : s.handle = true → s.sock = connected o
  loaded : s.loaded = true → s.handle = true

variable {o}

theorem chain_nil (s : Held) : chain [] s = (s, 0) := rfl

theorem chain_cons (step : Held → Held × Int) (l : List (Held → Held × Int)) (s : Held) :
    chain (step :: l) s = if (step s).2 = 0 then chain l (step s).1 else step s := rfl

theorem chain_singleton (step : Held → Held × Int) (s : Held) : chain [step] s = step s := by
  rw [chain_cons, chain_nil]
  split
  · exact Prod.ext rfl (by assumption : (step s).2 = 0).symm
  · rfl

theorem chain_append (l l' : List (Held → Held × Int)) (s : Held) :
    chain (l ++ l') s = if (chain l s).2 = 0 then chain l' (chain l s).1 else chain l s :=
  Loop.each_append

/-- Steps that set up nothing. -/
theorem chain_plain (rets : List Int) (s : Held) :
    (chain (rets.map plain) s).1 = s ∧
      ((chain (rets.map plain) s).2 = 0 ↔ ∀ ret ∈ rets, ret = 0) := by
  induction rets with
  | nil => exact ⟨rfl, by simp [chain]⟩
  | cons ret rets induction =>
      rw [List.map_cons, chain_cons]
      by_cases h : ret = 0
      · rw [if_pos (by exact h)]
        simpa [plain, h] using induction
      · rw [if_neg (by exact h)]
        simp [plain, h]

theorem processLink_eq (threads : List ThreadS) :
    processLink o { threads := threads } =
      ({ threads := threads, ctl := linked o }, if linked o then 0 else -1) := by
  rw [processLink, linked]
  cases o.prepare with
  | false => rfl
  | true =>
      by_cases h : o.mapRemote = -1
      · simp [h]
      · simp [h]

/-- `service_start` sets the socket when it gets that far. -/
theorem serviceStart_eq {s : Held} (hs : s.sock = false) (hl : s.loaded = false) :
    ∃ loaded, (serviceStart o s).1 = { s with sock := connected o, loaded := loaded } := by
  obtain ⟨threads, ctl, handle, sock, loaded, resumed⟩ := s
  cases hs
  cases hl
  by_cases h₁ : o.serviceCollectVmas = 0
  · by_cases h₂ : o.findRunner = 0
    · by_cases h₃ : o.localConnect = 0
      · refine ⟨o.remoteAccept == 0, ?_⟩
        by_cases h₄ : o.remoteAccept = 0
        · simp [serviceStart, serviceConnect, chain_cons, chain_nil, plain, connected, h₁, h₂, h₃,
            h₄]
        · simp [serviceStart, serviceConnect, chain_cons, plain, connected, h₁, h₂, h₃, h₄]
      · exact ⟨false, by simp
          [serviceStart, serviceConnect, chain_cons, plain, connected, h₁, h₂, h₃]⟩
    · exact ⟨false, by simp [serviceStart, serviceConnect, chain_cons, plain, connected, h₁, h₂]⟩
  · exact ⟨false, by simp [serviceStart, chain_cons, plain, connected, h₁]⟩

/-- `process_inject_service` sets the handle when the library was loaded. -/
theorem processInjectService_eq {s : Held} (hs : s.sock = false) (hl : s.loaded = false) :
    (o.findDlopen = 0 ∧ 0 < o.callDlopen ∧ ∃ loaded, (processInjectService o s).1 =
      { s with handle := true, sock := connected o, loaded := loaded }) ∨
    (¬ (o.findDlopen = 0 ∧ 0 < o.callDlopen) ∧ (processInjectService o s).1 = s) := by
  rw [processInjectService]
  by_cases h₁ : o.findDlopen = 0
  · rw [if_neg (not_not_intro h₁)]
    by_cases h₂ : o.callDlopen ≤ 0
    · rw [if_pos h₂]
      exact .inr ⟨fun h => absurd h.2 (by omega), rfl⟩
    · rw [if_neg h₂]
      exact .inl ⟨h₁, by omega, @serviceStart_eq o { s with handle := true } hs hl⟩
  · rw [if_pos h₁]
    exact .inr ⟨fun h => h₁ h.1, rfl⟩

/-- Steps behind which no step sets up anything. -/
theorem chain_append_plain (l : List (Held → Held × Int)) (rets : List Int) (s : Held) :
    (chain (l ++ rets.map plain) s).1 = (chain l s).1 := by
  rw [chain_append]
  split
  · exact (chain_plain rets _).1
  · rfl

/-- The steps in front of the service. -/
theorem chain_link (rets : List Int) (threads : List ThreadS) :
    (chain (processLink o :: rets.map plain) { threads := threads }).1 =
        { threads := threads, ctl := linked o } ∧
      ((chain (processLink o :: rets.map plain) { threads := threads }).2 = 0 ↔
        linked o = true ∧ ∀ ret ∈ rets, ret = 0) := by
  rw [chain_cons, processLink_eq]
  cases linked o with
  | false => exact ⟨rfl, by simp⟩
  | true => simpa using chain_plain rets { threads := threads, ctl := true }

/-- The state in which only `process_link` has set up something. -/
theorem SetUp.ofLink {cmd : Cmd} {threads : List ThreadS} (hcmd : injected o cmd = false) :
    SetUp o cmd threads { threads := threads, ctl := linked o } :=
  ⟨rfl, rfl, rfl, hcmd.symm, fun h => (nomatch h), fun h => (nomatch h)⟩

theorem injected_patch_iff : injected o (.patch false) = true ↔
    (linked o = true ∧ ∀ ret ∈ [o.collectVmas, o.findPatch, o.findTargetDlm], ret = 0) ∧
      o.findDlopen = 0 ∧ 0 < o.callDlopen := by
  simp [injected, and_assoc]

/-- The state behind `process_inject_service`, when it is reached. -/
theorem SetUp.ofInject {threads : List ThreadS} (hok : linked o = true ∧
    ∀ ret ∈ [o.collectVmas, o.findPatch, o.findTargetDlm], ret = 0) :
    SetUp o (.patch false) threads
      (processInjectService o { threads := threads, ctl := linked o }).1 := by
  rcases @processInjectService_eq o { threads := threads, ctl := linked o } rfl rfl with
    ⟨hfind, hcall, loaded, h⟩ | ⟨hno, h⟩
  · rw [h]
    exact ⟨rfl, rfl, rfl, (injected_patch_iff.mpr ⟨hok, hfind, hcall⟩).symm, fun _ => rfl,
      fun _ => rfl⟩
  · rw [h]
    refine .ofLink ?_
    rw [← Bool.not_eq_true, injected_patch_iff]
    exact fun hinj => hno hinj.2

/-- Whatever fails, `process_resume` is called in the state that was set up. -/
theorem steps_setUp (cmd : Cmd) (threads : List ThreadS) :
    SetUp o cmd threads (chain (steps o cmd) { threads := threads }).1 := by
  have hplain (cmd : Cmd) (rets : List Int) (hcmd : injected o cmd = false)
      (hsteps : steps o cmd = processLink o :: rets.map plain) :
      SetUp o cmd threads (chain (steps o cmd) { threads := threads }).1 := by
    rw [hsteps, (chain_link rets threads).1]
    exact .ofLink hcmd
  cases cmd with
  | unpatch => exact hplain .unpatch [o.collectVmas, o.revert] rfl rfl
  | patch noPlugin =>
      cases noPlugin with
      | true =>
          exact hplain (.patch true) [o.collectVmas, o.findPatch, o.findTargetDlm, o.collectNeeded,
            o.collectRelocations, o.resolveRelocations, o.applyDynBinpatch] rfl rfl
      | false =>
          obtain ⟨hfront, hret⟩ :=
            @chain_link o [o.collectVmas, o.findPatch, o.findTargetDlm] threads
          have hsteps : steps o (.patch false) =
              (processLink o :: [o.collectVmas, o.findPatch, o.findTargetDlm].map plain) ++
              [processInjectService o] ++
              [o.collectNeeded, o.collectRelocations, o.resolveRelocations,
                o.applyDynBinpatch].map plain := rfl
          rw [hsteps, chain_append_plain, chain_append, hfront]
          split
          · next h0 =>
              rw [chain_singleton]
              exact .ofInject (hret.mp h0)
          · next h0 =>
              rw [hfront]
              refine .ofLink ?_
              rw [← Bool.not_eq_true, injected_patch_iff]
              exact fun hinj => h0 (hret.mpr hinj.1)

/-! ## What is released -/

/-- The steps of `process_shutdown_service` succeed. -/
def ShutsDown (o : Outcomes) (sock : Bool) : Prop :=
  (sock = true → o.closeSock = 0) ∧ o.findDlclose = 0 ∧ o.callDlclose.setWidth 32 = 0#32

theorem serviceStop_spec (s : Held) :
    ((serviceStop o s).2 = 0 ↔ (s.sock = true → o.closeSock = 0)) ∧
    (serviceStop o s).1.threads = s.threads ∧ (serviceStop o s).1.resumed = s.resumed ∧
    (serviceStop o s).1.ctl = s.ctl ∧
    ((serviceStop o s).2 = 0 → (serviceStop o s).1.loaded = false) := by
  rw [serviceStop]
  cases hs : s.sock with
  | false => simp
  | true =>
      by_cases h : o.closeSock = 0
      · simp [h]
      · simp [h]

/-- `process_shutdown_service` fails only when there is a service and a step for
it fails. -/
theorem processShutdownService_spec (s : Held) :
    ((processShutdownService o s).2 = 0 ↔ (s.handle = true → ShutsDown o s.sock)) ∧
    (processShutdownService o s).1.threads = s.threads ∧
    (processShutdownService o s).1.resumed = s.resumed ∧
    (processShutdownService o s).1.ctl = s.ctl ∧
    ((processShutdownService o s).2 = 0 → (s.loaded = true → s.handle = true) →
      (processShutdownService o s).1.loaded = false) := by
  obtain ⟨hret, hthreads, hresumed, hctl, hloaded⟩ := @serviceStop_spec o s
  rw [processShutdownService, ShutsDown]
  cases hh : s.handle with
  | false => simp
  | true =>
      simp only [Bool.not_true, Bool.false_eq_true, if_false, true_imp_iff, ← hret]
      by_cases h₁ : (serviceStop o s).2 = 0
      · by_cases h₂ : o.findDlclose = 0
        · by_cases h₃ : o.callDlclose.setWidth 32 = 0#32
          · simp [chain_cons, chain_nil, plain, h₁, h₂, h₃, hthreads, hresumed, hctl, hloaded h₁]
          · simp [chain_cons, plain, h₁, h₂, h₃, hthreads, hresumed, hctl, EFAULT]
        · simp [chain_cons, plain, h₁, h₂, hthreads, hresumed, hctl]
      · simp [chain_cons, h₁, hthreads, hresumed, hctl]

theorem processUnlink_spec {s : Held} (hl : s.loaded = false) :
    (processUnlink o s).1 = s ∧
    ((processUnlink o s).2 = 0 ↔ (s.ctl = true → o.unmapRemote = 0 ∧ o.cure = 0)) := by
  rw [processUnlink, hl]
  cases s.ctl with
  | false => simp
  | true => simpa using chain_plain [o.unmapRemote, o.cure] s

/-- No call of `compel_resume_task` is forgotten. -/
theorem cureThread_resumed (t : ThreadS) (s : Held) :
    s.resumed ⊆ (cureThread o t s).2.1.resumed := by
  rw [cureThread, taskCure]
  split
  · exact List.Subset.refl _
  · exact List.subset_append_left ..

theorem each_cure_resumed (l : List ThreadS) (s : Held) :
    s.resumed ⊆ (Loop.eachSafe (cureThread o) l s).2.1.resumed :=
  Loop.eachSafe_inv (I := fun s' : Held => s.resumed ⊆ s'.resumed)
    (fun t s' h => List.Subset.trans h (cureThread_resumed t s')) (List.Subset.refl _)

theorem cureThread_skip {t : ThreadS} (h : t.seized = false) (s : Held) :
    cureThread o t s = (none, s, 0) := by
  simp [cureThread, taskCure, h]

theorem cureThread_ok {t : ThreadS} (h : t.seized = true) (hok : o.resumeTask t.pid = 0)
    (s : Held) : cureThread o t s = (none, { s with resumed := s.resumed ++ [t.pid] }, 0) := by
  simp [cureThread, taskCure, h, hok]

theorem cureThread_fail {t : ThreadS} (h : t.seized = true) (hne : o.resumeTask t.pid ≠ 0)
    (s : Held) :
    cureThread o t s = (some t, { s with resumed := s.resumed ++ [t.pid] }, -1) := by
  simp [cureThread, taskCure, h, hne]

theorem forall_dropLast_cons {p : ThreadS → Prop} (t : ThreadS) (L : List ThreadS) :
    (∀ u ∈ (t :: L).dropLast, p u) ↔ (L = [] ∨ p t) ∧ ∀ u ∈ L.dropLast, p u := by
  cases L with
  | nil => simp
  | cons v L => simp

/-- The loop gets to every seized thread exactly when no call but that of the last
one fails. -/
theorem each_cure_iff {l : List ThreadS} {s : Held} (hnodup : (l.map ThreadS.pid).Nodup)
    (hnew : ∀ t ∈ l, t.pid ∉ s.resumed) :
    (∀ t ∈ l, t.seized = true → t.pid ∈ (Loop.eachSafe (cureThread o) l s).2.1.resumed) ↔
      ∀ t ∈ (l.filter ThreadS.seized).dropLast, o.resumeTask t.pid = 0 := by
  induction l generalizing s with
  | nil => simp
  | cons t l induction =>
      obtain ⟨hfresh, hnodup'⟩ := List.nodup_cons.mp hnodup
      have hnew' : ∀ u ∈ l, u.pid ∉ s.resumed := fun u hu => hnew u (List.mem_cons_of_mem _ hu)
      have hother : ∀ u ∈ l, u.pid ∉ s.resumed ++ [t.pid] := by
        intro u hu hmem
        rcases List.mem_append.mp hmem with h | h
        · exact hnew' u hu h
        · exact hfresh (List.mem_map.mpr ⟨u, hu, List.mem_singleton.mp h⟩)
      rw [List.forall_mem_cons]
      cases hseized : t.seized with
      | false =>
          have hstep := cureThread_skip (o := o) hseized s
          rw [Loop.eachSafe_cons_ok (by rw [hstep]), hstep,
            List.filter_cons_of_neg (by simp [hseized])]
          simpa using induction hnodup' hnew'
      | true =>
          rw [List.filter_cons_of_pos hseized, forall_dropLast_cons]
          by_cases hok : o.resumeTask t.pid = 0
          · have hstep := cureThread_ok hseized hok s
            have hmem : t.pid ∈ (Loop.eachSafe (cureThread o) l
                { s with resumed := s.resumed ++ [t.pid] }).2.1.resumed :=
              each_cure_resumed l { s with resumed := s.resumed ++ [t.pid] } (by simp)
            rw [Loop.eachSafe_cons_ok (by rw [hstep]), hstep, and_iff_right (fun _ => hmem),
              induction hnodup' hother, and_iff_right (.inr hok)]
          · -- the loop stops behind `t`, so no other thread may be seized
            have hstep := cureThread_fail hseized hok s
            rw [Loop.eachSafe_cons_stop (by rw [hstep]; exact (by decide : (-1 : Int) ≠ 0)), hstep,
              or_iff_left hok]
            constructor
            · rintro ⟨-, hall⟩
              have hnil : l.filter ThreadS.seized = [] :=
                List.filter_eq_nil_iff.mpr fun u hu hs => hother u hu (hall u hu hs)
              rw [hnil]
              simp
            · rintro ⟨hnil, -⟩
              have hnone := List.filter_eq_nil_iff.mp hnil
              exact ⟨fun _ => by simp, fun u hu hs => absurd hs (hnone u hu)⟩

/-- `process_resume` is reached, and it gets to the threads. -/
theorem processResume_resumed_iff {cmd : Cmd} {threads : List ThreadS} {s : Held}
    (h : SetUp o cmd threads s) (hnodup : (threads.map ThreadS.pid).Nodup) :
    (∀ t ∈ threads, t.seized = true → t.pid ∈ (processResume o s).1.resumed) ↔
      (∀ t ∈ threads, t.seized = false) ∨
      ((injected o cmd = true → ShutsDown o (connected o)) ∧
        (linked o = true → o.unmapRemote = 0 ∧ o.cure = 0) ∧
        ∀ t ∈ (threads.filter ThreadS.seized).dropLast, o.resumeTask t.pid = 0) := by
  obtain ⟨hret, hthreads, hresumed, hctl, hloaded⟩ := @processShutdownService_spec o s
  have hshut : (s.handle = true → ShutsDown o s.sock) ↔
      (injected o cmd = true → ShutsDown o (connected o)) := by
    rw [← h.handle]
    exact forall_congr' fun hh => by rw [h.sock hh]
  -- when the chain ends early, no call is made
  have hnone : (∀ t ∈ threads, t.seized = true → t.pid ∈ ([] : List Nat)) ↔
      ∀ t ∈ threads, t.seized = false := by
    simp
  rw [processResume, chain_cons]
  by_cases h₁ : (processShutdownService o s).2 = 0
  · have hunlink := processUnlink_spec (o := o) (hloaded h₁ h.loaded)
    rw [if_pos h₁, chain_cons, hunlink.1]
    rw [hctl, h.ctl] at hunlink
    rw [hret, hshut] at h₁
    by_cases h₂ : (processUnlink o (processShutdownService o s).1).2 = 0
    · rw [if_pos h₂, chain_singleton, processCureThreads]
      show (∀ t ∈ threads, t.seized = true → t.pid ∈ (Loop.eachSafe (cureThread o)
        (processShutdownService o s).1.threads (processShutdownService o s).1).2.1.resumed) ↔ _
      rw [hthreads, h.threads, each_cure_iff hnodup (by rw [hresumed, h.resumed]; simp)]
      refine ⟨fun hall => .inr ⟨h₁, hunlink.2.mp h₂, hall⟩, ?_⟩
      rintro (hno | ⟨-, -, hall⟩)
      · have hnil : threads.filter ThreadS.seized = [] :=
          List.filter_eq_nil_iff.mpr fun t ht => by simp [hno t ht]
        rw [hnil]
        simp
      · exact hall
    · rw [if_neg h₂, hunlink.1, hresumed, h.resumed, hnone]
      exact ⟨.inl, fun hor => hor.resolve_right fun hr => h₂ (hunlink.2.mpr hr.2.1)⟩
  · rw [if_neg h₁, hresumed, h.resumed, hnone]
    exact ⟨.inl, fun hor => hor.resolve_right fun hr => h₁ (hret.mpr (hshut.mpr hr.1))⟩

end Release

/-! ## The list of threads -/

theorem processCollectThreads_nodup {threads : List ThreadS} (listing : List Nat)
    (h : (threads.map ThreadS.pid).Nodup) :
    ((processCollectThreads threads listing).map ThreadS.pid).Nodup := by
  induction listing generalizing threads with
  | nil => exact h
  | cons pid listing induction =>
      refine induction ?_
      by_cases hp : ∃ t ∈ threads, t.pid = pid
      · rw [collectThread_of_mem hp]
        exact h
      · rw [collectThread_of_not_mem hp, List.map_append, List.nodup_append]
        refine ⟨h, List.nodup_singleton _, ?_⟩
        rintro a ha b hb rfl
        obtain ⟨t, ht, hpid⟩ := List.mem_map.mp ha
        exact hp ⟨t, ht, hpid.trans (List.mem_singleton.mp hb)⟩

/-- The step of `process_infect` for one thread keeps its entry or destroys it. -/
theorem taskInfect_pids (t : ThreadS) (r : StopResult) :
    ((taskInfect t r).1.toList.map ThreadS.pid).Sublist [t.pid] := by
  cases r with
  | alive => exact .refl _
  | stopped => exact .refl _
  | zombie => exact List.nil_sublist _
  | dead => exact List.nil_sublist _
  | fail errno =>
      rw [taskInfect_fail]
      exact .refl _

/-- No thread is twice in `ctx->threads`. -/
theorem InfectStep.nodup {s s' : InfectSys} {l : InfectLabel}
    (h : (s.pc.threads.map ThreadS.pid).Nodup) (hs : InfectStep s l s') :
    (s'.pc.threads.map ThreadS.pid).Nodup := by
  cases hs with
  | clone _ _ _ => exact h
  | die _ _ => exact h
  | @collect threads listing hpc _ =>
      rw [hpc] at h
      have hnodup := processCollectThreads_nodup listing h
      rw [Pc.afterCollect]
      split
      · exact hnodup
      · split <;> exact hnodup
  | @collectFail threads listing err hpc _ =>
      rw [hpc] at h
      exact processCollectThreads_nodup listing h
  | @stop done todo t r stopped hpc _ =>
      rw [hpc] at h
      have hpids : ((done ++ (taskInfect t r).1.toList ++ todo).map ThreadS.pid).Nodup := by
        refine h.sublist ?_
        rw [Pc.threads, List.map_append, List.map_append, List.map_append, List.map_cons,
          List.append_assoc]
        exact (List.Sublist.refl _).append ((taskInfect_pids t r).append (List.Sublist.refl _))
      show ((Pc.afterStop done todo (taskInfect t r)).threads.map ThreadS.pid).Nodup
      rw [Pc.afterStop]
      split <;> exact hpids
  | round hpc =>
      rw [hpc, Pc.threads, List.append_nil] at h
      exact h
  | @resume err todo t ok hpc =>
      rw [hpc] at h
      have htodo : (todo.map ThreadS.pid).Nodup := (List.nodup_cons.mp h).2
      split
      · exact htodo
      · split
        · exact htodo
        · exact h
  | cured _ => exact List.nodup_nil

/-- When `patch_process` or `unpatch_process` returns, `compel_resume_task` has
been called for every thread that `process_infect` seized, exactly when the steps
of `process_resume` in front of the threads succeed, as far as there is something
to release, and no call but that for the last seized thread fails. -/
theorem released_iff {s₀ s₁ : InfectSys} {ls : List InfectLabel} {threads : List ThreadS}
    (h₀ : InfectInit s₀) (hrun : Lts.Run InfectStep s₀ ls s₁) (hpc : s₁.pc = .exit 0 threads)
    (o : Outcomes) (cmd : Release.Cmd) :
    (∀ t ∈ threads, t.seized = true →
      t.pid ∈ (Release.run o cmd { threads := threads }).1.resumed) ↔
      (∀ t ∈ threads, t.seized = false) ∨
      ((Release.injected o cmd = true → Release.ShutsDown o (Release.connected o)) ∧
        (Release.linked o = true → o.unmapRemote = 0 ∧ o.cure = 0) ∧
        ∀ t ∈ (threads.filter ThreadS.seized).dropLast, o.resumeTask t.pid = 0) := by
  have hnodup : (s₁.pc.threads.map ThreadS.pid).Nodup := by
    refine hrun.inv (I := fun s => (s.pc.threads.map ThreadS.pid).Nodup)
      (fun _ _ _ h hs => hs.nodup h) ?_
    rw [h₀.pc]
    exact List.nodup_nil
  rw [hpc] at hnodup
  exact Release.processResume_resumed_iff (Release.steps_setUp cmd threads) hnodup

/-- Nothing fails, and the two threads are resumed. -/
theorem threeThreads_released :
    ∃ s₁ ls, Lts.Run InfectStep (threeThreads {1, 2, 3} ∅ (.collect [])) ls s₁ ∧
      s₁.pc = .exit 0 [⟨1, true⟩, ⟨2, true⟩] ∧
      ∀ t ∈ [(⟨1, true⟩ : ThreadS), ⟨2, true⟩], t.seized = true → t.pid ∈
        (Release.run {} (.patch false) { threads := [⟨1, true⟩, ⟨2, true⟩] }).1.resumed := by
  refine ⟨_, _, threeThreads_run.mono, rfl, ?_⟩
  refine (released_iff threeThreads_init threeThreads_run.mono rfl {} (.patch false)).mpr
    (.inr ⟨fun _ => ⟨fun _ => rfl, rfl, by decide⟩, fun _ => ⟨rfl, rfl⟩, ?_⟩)
  exact fun _ _ => rfl

/-- The remote `dlclose` fails, and both threads stay stopped. -/
theorem failed_dlclose_keeps_threads :
    ∃ s₁ ls, Lts.Run InfectStep (threeThreads {1, 2, 3} ∅ (.collect [])) ls s₁ ∧
      s₁.pc = .exit 0 [⟨1, true⟩, ⟨2, true⟩] ∧
      ¬ ∀ t ∈ [(⟨1, true⟩ : ThreadS), ⟨2, true⟩], t.seized = true → t.pid ∈
        (Release.run { callDlclose := 1 } (.patch false)
          { threads := [⟨1, true⟩, ⟨2, true⟩] }).1.resumed := by
  refine ⟨_, _, threeThreads_run.mono, rfl, fun h => ?_⟩
  exact absurd (h ⟨1, true⟩ (List.mem_cons_self ..) rfl) (by decide)

end Nsb
