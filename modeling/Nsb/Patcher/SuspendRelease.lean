import Nsb.Patcher.Suspend

/-!
# What a failed suspend leaves behind

`process_suspend` that returns an error should leave the process as it was, running.
It does so as far as the entries of `ctx->threads` say what is stopped.  They do not
say all: for a thread that a signal had stopped before, `compel_stop_task` returns
`COMPEL_TASK_STOPPED`.  The thread is seized then, but `task_infect` returns `-EBUSY`
without a mark in its entry, and `task_cure` passes such an entry by.

`HeldInv` says who holds a stopped thread.  `processSuspend_releases` is the result:
behind an error, when no resume failed, the live threads that are still stopped are
exactly those reported as stopped.
-/

namespace Nsb

section

variable {check : Backtrace → Addr → Addr → Int} {bid : String} {s s' : SuspendSys}
  {threads : List ThreadS}

/-! ## The list behind an error -/

/-- Behind an error of `process_infect` the list is empty. -/
def Pc.Emptied (pc : Pc) : Prop :=
  ∀ ret threads, pc = .exit ret threads → ret ≠ 0 → threads = []

/-- Behind an error the list is empty. -/
def SuspendPhase.Emptied (pc : Pc) : SuspendPhase → Prop
  | .infect _ => pc.Emptied
  | .sleep _ threads => threads = []
  | .exit ret threads => ret ≠ 0 → threads = []
  | _ => True

theorem SuspendPhase.afterCatch_emptied (pc : Pc) (k : Nat) (ret : Int) :
    (SuspendPhase.afterCatch k ret []).Emptied pc := by
  rw [SuspendPhase.afterCatch]
  split
  · exact fun _ => rfl
  · split
    · rfl
    · exact fun _ => rfl

theorem Pc.afterCollect_emptied (threads : List ThreadS) : (Pc.afterCollect threads).Emptied := by
  intro ret l hpc hret
  rw [Pc.afterCollect] at hpc
  split at hpc
  · cases hpc
  · split at hpc
    next hempty =>
      cases hpc
      exact List.isEmpty_iff.mp hempty
    next =>
      cases hpc
      exact absurd rfl hret

theorem Pc.afterStop_emptied (done todo : List ThreadS) (r : Option ThreadS × Int) :
    (Pc.afterStop done todo r).Emptied := by
  intro ret l hpc
  rw [Pc.afterStop] at hpc
  split at hpc
  · cases hpc
  · cases hpc

theorem InfectStep.emptied {sys sys' : InfectSys} {l : InfectLabel} (h : sys.pc.Emptied)
    (hs : InfectStep sys l sys') (hl : (SuspendLabel.infect l).NoFailedResume) :
    sys'.pc.Emptied := by
  cases hs with
  | clone _ _ _ => exact h
  | die _ _ => exact h
  | collect _ _ => exact Pc.afterCollect_emptied _
  | collectFail _ _ => exact fun _ _ hpc => by cases hpc
  | stop _ _ => exact Pc.afterStop_emptied _ _ _
  | round _ => exact fun _ _ hpc => by cases hpc
  | @resume err todo t ok _ =>
      obtain rfl : ok = true := hl
      cases t.seized with
      | false => exact fun _ _ hpc => by cases hpc
      | true => exact fun _ _ hpc => by cases hpc
  | cured _ =>
      rintro _ _ ⟨⟩ _
      rfl

theorem SuspendStep.emptied {l : SuspendLabel} (h : s.phase.Emptied s.sys.pc)
    (hs : SuspendStep check bid s l s') (hl : l.NoFailedResume) :
    s'.phase.Emptied s'.sys.pc := by
  cases hs with
  | thread hstep hprocess =>
      dsimp only
      rw [hstep.pc_ofProcess hprocess]
      exact h
  | runs _ _ => exact h
  | infect hphase hstep _ _ =>
      dsimp only
      rw [hphase] at h ⊢
      exact hstep.emptied h hl
  | @infected k ret threads hphase hpc =>
      rw [hphase] at h
      dsimp only
      split
      next hret =>
        rw [h ret threads hpc hret]
        exact SuspendPhase.afterCatch_emptied _ _ _
      next => trivial
  | target _ _ => trivial
  | targetFail _ _ => trivial
  | check _ =>
      dsimp only
      split
      · trivial
      · trivial
  | checked _ => exact fun hret => absurd rfl hret
  | @resume k ret t todo ok _ =>
      obtain rfl : ok = true := hl
      cases t.seized with
      | false => trivial
      | true => trivial
  | cured _ => exact SuspendPhase.afterCatch_emptied _ _ _
  | wake _ => exact fun _ _ hpc => by cases hpc

/-- `process_suspend` is on its way out with `-EBUSY`, or has returned. -/
def SuspendPhase.Leaves (pc : Pc) : SuspendPhase → Prop
  | .infect _ => ∃ threads, pc = .cure (-EBUSY) threads ∨ pc = .exit (-EBUSY) threads
  | .exit _ _ => True
  | _ => False

def SuspendSys.Leaves (s : SuspendSys) : Prop := s.phase.Leaves s.sys.pc

theorem SuspendSys.threads_infect {k : Nat} (hphase : s.phase = .infect k) (sys : InfectSys) :
    SuspendSys.threads { s with sys := sys } = sys.pc.threads := by
  show s.phase.threads sys.pc = _
  rw [hphase]
  rfl

theorem SuspendSys.leaves_infect {k : Nat} (hphase : s.phase = .infect k) (sys : InfectSys) :
    SuspendSys.Leaves { s with sys := sys } ↔
      ∃ threads, sys.pc = .cure (-EBUSY) threads ∨ sys.pc = .exit (-EBUSY) threads := by
  show s.phase.Leaves sys.pc ↔ _
  rw [hphase]
  rfl

/-- A thread that was not seized has been reported as stopped. -/
def Busy (ls : List SuspendLabel) (tid : Nat) : Prop :=
  .infect (.stop ⟨tid, false⟩ .stopped) ∈ ls

/-- Who holds a stopped thread: its entry, or nobody when it was reported as stopped.
Behind such a report there is no entry that could be resumed for it. -/
structure HeldInv (ls : List SuspendLabel) (s : SuspendSys) : Prop where
  held : ∀ tid ∈ s.sys.live, tid ∈ s.sys.stopped →
    (∃ t ∈ s.threads, t.pid = tid ∧ t.seized = true) ∨ Busy ls tid
  busy : ∀ tid, Busy ls tid → tid ∈ s.sys.stopped ∧ s.Leaves ∧
    ∀ t ∈ s.threads, t.pid = tid → t.seized = false

theorem Pc.threads_afterCollect (threads : List ThreadS) :
    (Pc.afterCollect threads).threads = threads := by
  rw [Pc.afterCollect]
  split_ifs
  · rfl
  · rfl
  · rfl

theorem SuspendInv.listed (h : SuspendInv check bid s) : Listed s.sys s.threads := by
  have hholds := h.holds
  rw [SuspendSys.threads]
  cases hphase : s.phase with
  | infect _ => rw [hphase] at hholds; exact hholds.listed
  | target _ _ => rw [hphase] at hholds; exact hholds.toListed
  | check _ _ _ _ => rw [hphase] at hholds; exact hholds.1.toListed
  | cure _ _ _ => rw [hphase] at hholds; exact hholds.2
  | sleep _ _ => rw [hphase] at hholds; exact hholds
  | exit _ _ => rw [hphase] at hholds; exact hholds.1

section

variable {ls : List SuspendLabel} {l : SuspendLabel}

theorem busy_snoc {tid : Nat} :
    Busy (ls ++ [l]) tid ↔ Busy ls tid ∨ l = .infect (.stop ⟨tid, false⟩ .stopped) := by
  rw [Busy, Busy, List.mem_append, List.mem_singleton, eq_comm]

/-- A step that stops no thread and drops no entry of a live thread that stays
stopped. -/
theorem HeldInv.quiet (h : HeldInv ls s) (hl : ∀ tid, l ≠ .infect (.stop ⟨tid, false⟩ .stopped))
    (hstopped : s'.sys.stopped ⊆ s.sys.stopped)
    (hlive : ∀ tid ∈ s'.sys.live, tid ∈ s'.sys.stopped → tid ∈ s.sys.live)
    (hseized : ∀ t ∈ s.threads, t.seized = true → t.pid ∈ s'.sys.live → t.pid ∈ s'.sys.stopped →
      t ∈ s'.threads)
    (hleaves : s.Leaves → s'.Leaves ∧ s'.threads ⊆ s.threads ∧ ∀ tid ∈ s.sys.stopped,
      tid ∉ s'.sys.stopped → ∃ t ∈ s.threads, t.pid = tid ∧ t.seized = true) :
    HeldInv (ls ++ [l]) s' := by
  have hbusy : ∀ tid, Busy (ls ++ [l]) tid → Busy ls tid := fun tid hb =>
    (busy_snoc.mp hb).resolve_right (hl tid)
  constructor
  · intro tid htid hst
    rcases h.held tid (hlive tid htid hst) (hstopped hst) with ⟨t, ht, rfl, hsz⟩ | hb
    · exact .inl ⟨t, hseized t ht hsz htid hst, rfl, hsz⟩
    · exact .inr (busy_snoc.mpr (.inl hb))
  · intro tid hb
    obtain ⟨hst, hout, hunseized⟩ := h.busy tid (hbusy tid hb)
    obtain ⟨hout', hsub, hkept⟩ := hleaves hout
    refine ⟨?_, hout', fun t ht => hunseized t (hsub ht)⟩
    by_contra hno
    obtain ⟨t, ht, hpid, hsz⟩ := hkept tid hst hno
    rw [hunseized t ht hpid] at hsz
    cases hsz

/-- The same for a step that leaves the process alone. -/
theorem HeldInv.moved (h : HeldInv ls s) (hl : ∀ tid, l ≠ .infect (.stop ⟨tid, false⟩ .stopped))
    (hlive : s'.sys.live = s.sys.live) (hstopped : s'.sys.stopped = s.sys.stopped)
    (hthreads : s'.threads = s.threads) (hleaves : s.Leaves → s'.Leaves) :
    HeldInv (ls ++ [l]) s' := by
  refine h.quiet hl (by rw [hstopped]) (fun tid htid _ => hlive ▸ htid)
    (fun t ht _ _ _ => hthreads ▸ ht) fun hout => ?_
  refine ⟨hleaves hout, hthreads ▸ List.Subset.refl _, fun tid hst hno => ?_⟩
  rw [hstopped] at hno
  exact absurd hst hno

/-- Resuming the first entry of the list. -/
theorem HeldInv.resumed (h : HeldInv ls s) (hl : ∀ tid, l ≠ .infect (.stop ⟨tid, false⟩ .stopped))
    {t : ThreadS} {todo : List ThreadS} (hthreads : s.threads = t :: todo)
    (hlive : s'.sys.live = s.sys.live) (hthreads' : s'.threads = todo)
    (hstopped : s'.sys.stopped = if t.seized then s.sys.stopped.erase t.pid else s.sys.stopped)
    (hleaves : s.Leaves → s'.Leaves) : HeldInv (ls ++ [l]) s' := by
  refine h.quiet hl ?_ (fun tid htid _ => hlive ▸ htid) ?_ fun hout => ⟨hleaves hout, ?_, ?_⟩
  · rw [hstopped]
    split
    · exact Finset.erase_subset ..
    · exact Finset.Subset.refl _
  · intro u hu hsz _ hst
    rw [hthreads] at hu
    rw [hthreads']
    rcases List.mem_cons.mp hu with rfl | hu
    · rw [hstopped, if_pos hsz] at hst
      exact absurd rfl (Finset.mem_erase.mp hst).1
    · exact hu
  · rw [hthreads, hthreads']
    exact List.subset_cons_self ..
  · intro tid hst hno
    rw [hstopped] at hno
    split at hno
    next hsz =>
      have hpid : tid = t.pid := by
        by_contra hne
        exact hno (Finset.mem_erase.mpr ⟨hne, hst⟩)
      exact ⟨t, by rw [hthreads]; exact List.mem_cons_self .., hpid.symm, hsz⟩
    next => exact absurd hst hno

/-- An entry whose thread is not live leaves the list. -/
theorem HeldInv.dropped (h : HeldInv ls s) {k : Nat} (hphase : s.phase = .infect k)
    {done todo : List ThreadS} {t : ThreadS} (hthreads : s.threads = done ++ t :: todo)
    (hno : ¬ s.Leaves) (hdead : t.pid ∉ s.sys.live)
    (hl : ∀ tid, l ≠ .infect (.stop ⟨tid, false⟩ .stopped)) {pc : Pc}
    (hpc : pc = .afterStop done todo (none, 0)) :
    HeldInv (ls ++ [l]) { s with sys := { s.sys with pc := pc } } := by
  refine h.quiet hl (Finset.Subset.refl _) (fun _ htid _ => htid) ?_ fun hout => absurd hout hno
  intro u hu _ hlive _
  rw [SuspendSys.threads_infect hphase, hpc]
  rw [hthreads] at hu
  have hmem : u ∈ done ∨ u ∈ todo := by
    rcases List.mem_append.mp hu with hu | hu
    · exact .inl hu
    · rcases List.mem_cons.mp hu with rfl | hu
      · exact absurd hlive hdead
      · exact .inr hu
  simpa [Pc.afterStop, Pc.threads] using hmem

/-- Before a thread is reported as stopped nobody has been. -/
theorem HeldInv.not_busy (h : HeldInv ls s) (hno : ¬ s.Leaves) (tid : Nat) : ¬ Busy ls tid :=
  fun hb => hno (h.busy tid hb).2.1

/-- The entry of one thread changes, and those of the others hold them as before. -/
theorem HeldInv.other (h : HeldInv ls s) (hno : ¬ s.Leaves) {done todo : List ThreadS}
    {t e : ThreadS} (hthreads : s.threads = done ++ t :: todo) {tid : Nat} (hne : tid ≠ t.pid)
    (htid : tid ∈ s.sys.live) (hst : tid ∈ s.sys.stopped) :
    ∃ u ∈ done ++ e :: todo, u.pid = tid ∧ u.seized = true := by
  obtain ⟨u, hu, hpid, hsz⟩ := (h.held tid htid hst).resolve_right (h.not_busy hno tid)
  refine ⟨u, ?_, hpid, hsz⟩
  rw [hthreads] at hu
  rcases List.mem_append.mp hu with hu | hu
  · exact List.mem_append_left _ hu
  · rcases List.mem_cons.mp hu with rfl | hu
    · exact absurd hpid.symm hne
    · exact List.mem_append_right _ (List.mem_cons_of_mem _ hu)

/-- The thread is stopped, and its entry is marked. -/
theorem HeldInv.stop_alive (h : HeldInv ls s) {k : Nat} (hphase : s.phase = .infect k)
    {done todo : List ThreadS} {t : ThreadS} (hthreads : s.threads = done ++ t :: todo)
    (hno : ¬ s.Leaves) :
    HeldInv (ls ++ [.infect (.stop t .alive)])
      { s with sys := { s.sys with stopped := insert t.pid s.sys.stopped
                                   pc := .afterStop done todo (taskInfect t .alive) } } := by
  have hnew : SuspendSys.threads { s with sys := { s.sys with
      stopped := insert t.pid s.sys.stopped
      pc := .afterStop done todo (taskInfect t .alive) } } =
      done ++ { t with seized := true } :: todo := by
    rw [SuspendSys.threads_infect hphase]
    simp [Pc.afterStop, taskInfect, Pc.threads]
  constructor
  · intro tid htid hst
    rw [hnew]
    left
    by_cases heq : tid = t.pid
    · exact ⟨_, List.mem_append_right _ (List.mem_cons_self ..), heq.symm, rfl⟩
    · exact h.other hno hthreads heq htid (Finset.mem_of_mem_insert_of_ne hst heq)
  · intro tid hb
    rcases busy_snoc.mp hb with hb | hb
    · exact absurd hb (h.not_busy hno tid)
    · cases hb

/-- The thread is stopped, and its entry is as before. -/
theorem HeldInv.stop_stopped (h : HeldInv ls s) {k : Nat} (hphase : s.phase = .infect k)
    {done todo : List ThreadS} {t : ThreadS} (hthreads : s.threads = done ++ t :: todo)
    (hno : ¬ s.Leaves) (hlisted : Listed s.sys (done ++ t :: todo)) :
    HeldInv (ls ++ [.infect (.stop t .stopped)])
      { s with sys := { s.sys with stopped := insert t.pid s.sys.stopped
                                   pc := .afterStop done todo (taskInfect t .stopped) } } := by
  have hnew : SuspendSys.threads { s with sys := { s.sys with
      stopped := insert t.pid s.sys.stopped
      pc := .afterStop done todo (taskInfect t .stopped) } } = done ++ t :: todo := by
    rw [SuspendSys.threads_infect hphase]
    simp [Pc.afterStop, taskInfect, Pc.threads, EBUSY]
  have hmem : t ∈ done ++ t :: todo := List.mem_append_right _ (List.mem_cons_self ..)
  constructor
  · intro tid htid hst
    rw [hnew]
    by_cases heq : tid = t.pid
    · subst heq
      -- the entry of a thread that was seized before holds it still
      cases hsz : t.seized with
      | true => exact .inl ⟨t, hmem, rfl, hsz⟩
      | false =>
          have ht : t = ⟨t.pid, false⟩ := by rw [← hsz]
          exact .inr (busy_snoc.mpr (.inr (by rw [← ht])))
    · exact .inl (h.other hno hthreads heq htid (Finset.mem_of_mem_insert_of_ne hst heq))
  · intro tid hb
    rcases busy_snoc.mp hb with hb | hb
    · exact absurd hb (h.not_busy hno tid)
    · obtain rfl : t = ⟨tid, false⟩ := by
        cases hb
        rfl
      refine ⟨Finset.mem_insert_self .., ?_, ?_⟩
      · rw [SuspendSys.leaves_infect hphase]
        exact ⟨_, .inl rfl⟩
      · intro u hu hpid
        rw [hnew] at hu
        rw [List.inj_on_of_nodup_map hlisted.nodup hu hmem hpid]

/-- `compel_stop_task`, for each of its results. -/
theorem HeldInv.stop (h : HeldInv ls s) {k : Nat} (hphase : s.phase = .infect k)
    {done todo : List ThreadS} {t : ThreadS} {r : StopResult} {stopped : Finset Nat}
    (hlisted : Listed s.sys (done ++ t :: todo)) (hpc : s.sys.pc = .seize done (t :: todo))
    (hr : Stops s.sys t.pid r stopped) :
    HeldInv (ls ++ [.infect (.stop t r)])
      { s with sys := { s.sys with stopped := stopped
                                   pc := .afterStop done todo (taskInfect t r) } } := by
  have hthreads : s.threads = done ++ t :: todo := by
    rw [SuspendSys.threads_infect hphase s.sys, hpc]
    rfl
  have hno : ¬ s.Leaves := by
    rw [SuspendSys.leaves_infect hphase s.sys, hpc]
    rintro ⟨_, h | h⟩
    · cases h
    · cases h
  cases hr with
  | alive => exact h.stop_alive hphase hthreads hno
  | stopped => exact h.stop_stopped hphase hthreads hno hlisted
  | zombie hdead => exact h.dropped hphase hthreads hno hdead (by simp) rfl
  | dead hdead => exact h.dropped hphase hthreads hno hdead (by simp) rfl
  | @fail errno hne =>
      refine h.moved (by simp) rfl rfl ?_ fun hout => absurd hout hno
      rw [SuspendSys.threads_infect hphase, hthreads, taskInfect_fail]
      simp [Pc.afterStop, hne, Pc.threads]

/-- Every step of `process_infect` that is not one of the process. -/
theorem HeldInv.infect (h : HeldInv ls s) (hinv : SuspendInv check bid s) {k : Nat}
    {l : InfectLabel} {sys : InfectSys} (hphase : s.phase = .infect k)
    (hs : InfectStep s.sys l sys) (hl : ¬ l.OfProcess) :
    HeldInv (ls ++ [.infect l]) { s with sys := sys } := by
  have hlisted := hinv.listed
  have hnew := SuspendSys.threads_infect hphase
  have hout := SuspendSys.leaves_infect hphase
  have hthreads : s.threads = s.sys.pc.threads := hnew s.sys
  have hnot : (∀ err threads, s.sys.pc ≠ .cure err threads) →
      (∀ ret threads, s.sys.pc ≠ .exit ret threads) → ¬ s.Leaves := by
    intro hcure hexit hleaves
    obtain ⟨_, hpc | hpc⟩ := (hout s.sys).mp hleaves
    · exact hcure _ _ hpc
    · exact hexit _ _ hpc
  cases hs with
  | clone _ _ _ => exact absurd trivial hl
  | die _ _ => exact absurd trivial hl
  | @collect threads listing hpc _ =>
      have hno : ¬ s.Leaves := hnot (by simp [hpc]) (by simp [hpc])
      refine h.quiet (by simp) (Finset.Subset.refl _) (fun _ htid _ => htid) ?_
        fun hleaves => absurd hleaves hno
      intro t ht _ _ _
      rw [hthreads, hpc] at ht
      obtain ⟨new, heq, -⟩ := processCollectThreads_eq_append listing threads
      rw [hnew, Pc.threads_afterCollect, heq]
      exact List.mem_append_left _ ht
  | @collectFail threads listing err hpc _ =>
      have hno : ¬ s.Leaves := hnot (by simp [hpc]) (by simp [hpc])
      refine h.quiet (by simp) (Finset.Subset.refl _) (fun _ htid _ => htid) ?_
        fun hleaves => absurd hleaves hno
      intro t ht _ _ _
      rw [hthreads, hpc] at ht
      obtain ⟨new, heq, -⟩ := processCollectThreads_eq_append listing threads
      rw [hnew, Pc.threads, heq]
      exact List.mem_append_left _ ht
  | stop hpc hr =>
      rw [hthreads, hpc] at hlisted
      exact h.stop hphase hlisted hpc hr
  | @round done hpc =>
      refine h.moved (by simp) rfl rfl ?_ fun hleaves => ?_
      · rw [hnew, hthreads, hpc]
        exact (List.append_nil done).symm
      · exact absurd hleaves (hnot (by simp [hpc]) (by simp [hpc]))
  | @resume err todo t ok hpc =>
      have herr : s.Leaves → err = -EBUSY := by
        intro hleaves
        obtain ⟨_, hp | hp⟩ := (hout s.sys).mp hleaves
        · rw [hpc] at hp
          cases hp
          rfl
        · rw [hpc] at hp
          cases hp
      have hlist : s.threads = t :: todo := by rw [hthreads, hpc]; rfl
      cases hz : t.seized with
      | false =>
          refine h.resumed (by simp) hlist rfl (hnew _) (by rw [hz]; rfl) fun hleaves => ?_
          rw [herr hleaves]
          exact (hout _).mpr ⟨todo, .inl rfl⟩
      | true =>
          cases ok with
          | true =>
              refine h.resumed (by simp) hlist rfl (hnew _) (by rw [hz]; rfl) fun hleaves => ?_
              rw [herr hleaves]
              exact (hout _).mpr ⟨todo, .inl rfl⟩
          | false =>
              refine h.moved (by simp) rfl rfl ((hnew _).trans hlist.symm) fun hleaves => ?_
              rw [herr hleaves]
              exact (hout _).mpr ⟨_, .inr rfl⟩
  | @cured err hpc =>
      refine h.moved (by simp) rfl rfl (by rw [hnew, hthreads, hpc]; rfl) fun hleaves => ?_
      obtain ⟨_, hp | hp⟩ := (hout s.sys).mp hleaves
      · rw [hpc] at hp
        cases hp
        exact (hout _).mpr ⟨[], .inr rfl⟩
      · rw [hpc] at hp
        cases hp

/-- The end of a try hands the list on. -/
theorem SuspendPhase.threads_afterCatch (s : SuspendSys) (k : Nat) (ret : Int)
    (threads : List ThreadS) :
    SuspendSys.threads { s with phase := .afterCatch k ret threads } = threads := by
  rw [SuspendSys.threads]
  dsimp only
  rw [SuspendPhase.afterCatch]
  split_ifs
  · rfl
  · rfl
  · rfl

theorem HeldInv.step (h : HeldInv ls s) (hinv : SuspendInv check bid s)
    (hs : SuspendStep check bid s l s') : HeldInv (ls ++ [l]) s' := by
  cases hs with
  | @thread l sys hstep hl =>
      have hpc := hstep.pc_ofProcess hl
      have hthreads : SuspendSys.threads { s with sys := sys } = s.threads := by
        rw [SuspendSys.threads, SuspendSys.threads, hpc]
      have hleaves : SuspendSys.Leaves { s with sys := sys } ↔ s.Leaves := by
        rw [SuspendSys.Leaves, SuspendSys.Leaves, hpc]
      obtain ⟨_, child, _, _, hchild, rfl⟩ | ⟨tid, _, _, rfl⟩ := hstep.ofProcess_cases hl
      · refine h.quiet (by simp) (Finset.Subset.refl _) ?_ (fun t ht _ _ _ => hthreads ▸ ht) ?_
        · intro tid htid hst
          rcases Finset.mem_insert.mp htid with rfl | htid
          · exact absurd (hinv.born.stopped hst) hchild
          · exact htid
        · exact fun hout => ⟨hleaves.mpr hout, hthreads ▸ List.Subset.refl _,
            fun _ hst hno => absurd hst hno⟩
      · refine h.quiet (by simp) (Finset.Subset.refl _)
          (fun _ htid _ => Finset.mem_of_mem_erase htid) (fun t ht _ _ _ => hthreads ▸ ht) ?_
        exact fun hout => ⟨hleaves.mpr hout, hthreads ▸ List.Subset.refl _,
          fun _ hst hno => absurd hst hno⟩
  | runs _ _ => exact h.moved (by simp) rfl rfl rfl id
  | infect hphase hstep hl _ => exact h.infect hinv hphase hstep hl
  | @infected k ret threads hphase hpc =>
      have hold : s.threads = threads := by rw [SuspendSys.threads, hphase, hpc]; rfl
      refine h.moved (by simp) rfl rfl ?_ fun hout => ?_
      · rw [hold]
        split
        · exact SuspendPhase.threads_afterCatch ..
        · rfl
      · rw [SuspendSys.Leaves, hphase, hpc] at hout
        obtain ⟨_, hp | hp⟩ := hout
        · cases hp
        · cases hp
          trivial
  | target hphase _ =>
      exact h.moved (by simp) rfl rfl (by simp [SuspendSys.threads, SuspendPhase.threads, hphase])
        (by simp [SuspendSys.Leaves, SuspendPhase.Leaves, hphase])
  | targetFail hphase _ =>
      exact h.moved (by simp) rfl rfl (by simp [SuspendSys.threads, SuspendPhase.threads, hphase])
        (by simp [SuspendSys.Leaves, SuspendPhase.Leaves, hphase])
  | check hphase =>
      refine h.moved (by simp) rfl rfl ?_ (by simp [SuspendSys.Leaves, SuspendPhase.Leaves, hphase])
      rw [SuspendSys.threads, SuspendSys.threads, hphase]
      split
      · rfl
      · rfl
  | checked hphase =>
      exact h.moved (by simp) rfl rfl (by simp [SuspendSys.threads, SuspendPhase.threads, hphase])
        (by simp [SuspendSys.Leaves, SuspendPhase.Leaves, hphase])
  | @resume k ret t todo ok hphase =>
      have hno : ¬ s.Leaves := by simp [SuspendSys.Leaves, SuspendPhase.Leaves, hphase]
      have hlist : s.threads = t :: todo := by
        rw [SuspendSys.threads, hphase]
        rfl
      cases hz : t.seized with
      | false =>
          exact h.resumed (by simp) hlist rfl rfl (by rw [hz]; rfl) fun hout => absurd hout hno
      | true =>
          cases ok with
          | true =>
              exact h.resumed (by simp) hlist rfl rfl (by rw [hz]; rfl) fun hout => absurd hout hno
          | false =>
              refine h.moved (by simp) rfl rfl ?_ fun hout => absurd hout hno
              exact (SuspendPhase.threads_afterCatch ..).trans hlist.symm
  | cured hphase =>
      refine h.moved (by simp) rfl rfl ?_ (by simp [SuspendSys.Leaves, SuspendPhase.Leaves, hphase])
      rw [SuspendPhase.threads_afterCatch, SuspendSys.threads, hphase]
      rfl
  | wake hphase =>
      exact h.moved (by simp) rfl rfl
        (by simp [SuspendSys.threads, SuspendPhase.threads, hphase, Pc.threads])
        (by simp [SuspendSys.Leaves, SuspendPhase.Leaves, hphase])

end

/-- When `process_suspend` has returned an error and no resume failed, the list is
empty, and the live threads that are still stopped are those that were reported as
stopped when they were not seized. -/
theorem processSuspend_releases {s₀ : SuspendSys} {ls : List SuspendLabel} {ret : Int}
    (h₀ : SuspendInit s₀)
    (hrun : Lts.Run (Lts.Guarded (SuspendStep check bid) fun _ l => l.NoFailedResume) s₀ ls s)
    (hphase : s.phase = .exit ret threads) (hret : ret ≠ 0) :
    threads = [] ∧ ∀ tid ∈ s.sys.live, tid ∈ s.sys.stopped ↔
      .infect (.stop ⟨tid, false⟩ .stopped) ∈ ls := by
  have hempty₀ : s₀.phase.Emptied s₀.sys.pc := by
    rw [h₀.phase, h₀.infect.pc]
    exact fun _ _ hpc => by cases hpc
  have hempty : s.phase.Emptied s.sys.pc :=
    hrun.inv (I := fun s => s.phase.Emptied s.sys.pc) (fun _ _ _ h hs => hs.2.emptied h hs.1)
      hempty₀
  have hheld₀ : HeldInv [] s₀ := by
    refine ⟨fun tid _ hst => ?_, fun tid hb => by cases hb⟩
    rw [h₀.infect.stopped] at hst
    exact absurd hst (Finset.notMem_empty _)
  have hheld : SuspendInv check bid s ∧ HeldInv ls s :=
    hrun.mono.inv_labels (I := fun ls s => SuspendInv check bid s ∧ HeldInv ls s)
      (fun _ _ _ _ h hs => ⟨h.1.step hs, h.2.step h.1 hs⟩) ⟨.init h₀, hheld₀⟩
  rw [hphase] at hempty
  obtain rfl : threads = [] := hempty hret
  refine ⟨rfl, fun tid htid => ⟨fun hst => ?_, fun hb => (hheld.2.busy tid hb).1⟩⟩
  rcases hheld.2.held tid htid hst with ⟨t, ht, _⟩ | hb
  · rw [SuspendSys.threads, hphase] at ht
    cases ht
  · exact hb

end

/-- A signal had stopped thread `2`.  Thread `1` is resumed, thread `2` is not. -/
theorem threeSuspend_busy : ∃ ls s threads,
    Lts.Run (Lts.Guarded (SuspendStep (suspendCheck 0x800) "target") fun _ l => l.NoFailedResume)
      (threeSuspend {1, 2, 3} ∅ (.collect []) (.infect 0)) ls s ∧
    s.phase = .exit (-EBUSY) threads ∧ s.sys.live = {1, 2} ∧ s.sys.stopped = {2} ∧
    threads = [] ∧ ∀ tid ∈ s.sys.live, tid ∈ s.sys.stopped ↔
      .infect (.stop ⟨tid, false⟩ .stopped) ∈ ls := by
  obtain ⟨ls, hrun⟩ := threeSuspend_begun (suspendCheck 0x800)
  have s1 : SuspendStep (suspendCheck 0x800) "target"
      (threeSuspend {1, 2} {1} (.seize [⟨1, true⟩] [⟨2, false⟩, ⟨3, false⟩]) (.infect 0))
      (.infect (.stop ⟨2, false⟩ .stopped))
      (threeSuspend {1, 2} {2, 1} (.cure (-EBUSY) [⟨1, true⟩, ⟨2, false⟩, ⟨3, false⟩])
        (.infect 0)) :=
    .infect rfl (@InfectStep.stop (threeThreads {1, 2} {1} _) [⟨1, true⟩] [⟨3, false⟩] _ _ _ rfl
      .stopped) id trivial
  have s2 : SuspendStep (suspendCheck 0x800) "target"
      (threeSuspend {1, 2} {2, 1} (.cure (-EBUSY) [⟨1, true⟩, ⟨2, false⟩, ⟨3, false⟩])
        (.infect 0)) (.infect (.resume ⟨1, true⟩ true))
      (threeSuspend {1, 2} {2} (.cure (-EBUSY) [⟨2, false⟩, ⟨3, false⟩]) (.infect 0)) :=
    .infect rfl (@InfectStep.resume (threeThreads {1, 2} {2, 1} _) _ _ _ true rfl) id trivial
  have s3 : SuspendStep (suspendCheck 0x800) "target"
      (threeSuspend {1, 2} {2} (.cure (-EBUSY) [⟨2, false⟩, ⟨3, false⟩]) (.infect 0))
      (.infect (.resume ⟨2, false⟩ true))
      (threeSuspend {1, 2} {2} (.cure (-EBUSY) [⟨3, false⟩]) (.infect 0)) :=
    .infect rfl (@InfectStep.resume (threeThreads {1, 2} {2} _) _ _ _ true rfl) id trivial
  have s4 : SuspendStep (suspendCheck 0x800) "target"
      (threeSuspend {1, 2} {2} (.cure (-EBUSY) [⟨3, false⟩]) (.infect 0))
      (.infect (.resume ⟨3, false⟩ true))
      (threeSuspend {1, 2} {2} (.cure (-EBUSY) []) (.infect 0)) :=
    .infect rfl (@InfectStep.resume (threeThreads {1, 2} {2} _) _ _ _ true rfl) id trivial
  have s5 : SuspendStep (suspendCheck 0x800) "target"
      (threeSuspend {1, 2} {2} (.cure (-EBUSY) []) (.infect 0)) (.infect .cured)
      (threeSuspend {1, 2} {2} (.exit (-EBUSY) []) (.infect 0)) :=
    .infect rfl (.cured rfl) id trivial
  have s6 : SuspendStep (suspendCheck 0x800) "target"
      (threeSuspend {1, 2} {2} (.exit (-EBUSY) []) (.infect 0)) .infected
      (threeSuspend {1, 2} {2} (.exit (-EBUSY) []) (.exit (-EBUSY) [])) :=
    @SuspendStep.infected _ _ (threeSuspend {1, 2} {2} (.exit (-EBUSY) []) (.infect 0)) _ _ _ rfl
      rfl
  have hfull := (((((hrun.snoc (s1.guarded trivial)).snoc (s2.guarded rfl)).snoc
    (s3.guarded rfl)).snoc (s4.guarded rfl)).snoc (s5.guarded trivial)).snoc (s6.guarded trivial)
  exact ⟨_, _, _, hfull, rfl, rfl, rfl,
    processSuspend_releases threeSuspend_init hfull rfl (by decide)⟩

end Nsb
