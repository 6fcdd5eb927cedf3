import Nsb.Patcher.Infect

/-!
# Safety of seizing

When `process_infect` returns zero, every live thread is in `ctx->threads` and
seized (`processInfect_seizes_live`).  The loop stops after a look at the last
list element only.  This is enough because every entry is seized when a round
begins and a reading of the directory appends unseized entries at the end
(`processCollectThreads_eq_append`), so a seized last element means that the
reading added nothing.

The rounds are not independent, though.  `process_infect_threads` goes over the
whole list again, the seized entries included.  `secondRound_stops_seized` is a
run that calls `compel_stop_task` on a seized thread, and
`processInfect_stops_unseized` says when this does not happen: when no reading
of the directory shows a new thread while an entry is seized.
-/

namespace Nsb

/-! ## Reading the directory -/

theorem collectThread_of_mem {threads : List ThreadS} {pid : Nat}
    (h : ∃ t ∈ threads, t.pid = pid) : collectThread threads pid = threads := by
  obtain ⟨t, ht, hp⟩ := h
  exact if_pos (List.any_eq_true.mpr ⟨t, ht, by simp [hp]⟩)

theorem collectThread_of_not_mem {threads : List ThreadS} {pid : Nat}
    (h : ¬ ∃ t ∈ threads, t.pid = pid) :
    collectThread threads pid = threads ++ [{ pid := pid }] := by
  refine if_neg fun hany => h ?_
  obtain ⟨t, ht, hp⟩ := List.any_eq_true.mp hany
  exact ⟨t, ht, by simpa using hp⟩

/-- A reading appends unseized entries, and then the list has an entry for
every thread of the directory. -/
theorem processCollectThreads_eq_append (listing : List Nat) :
    ∀ threads : List ThreadS, ∃ new, processCollectThreads threads listing = threads ++ new ∧
      (∀ t ∈ new, t.seized = false) ∧
      ∀ pid ∈ listing, ∃ t ∈ processCollectThreads threads listing, t.pid = pid := by
  induction listing with
  | nil => exact fun threads => ⟨[], by simp [processCollectThreads]⟩
  | cons pid listing ih =>
      intro threads
      have hcons : processCollectThreads threads (pid :: listing) =
          processCollectThreads (collectThread threads pid) listing := rfl
      obtain ⟨new, hnew, hun, hall⟩ := ih (collectThread threads pid)
      rw [hcons]
      by_cases hp : ∃ t ∈ threads, t.pid = pid
      · rw [collectThread_of_mem hp] at hnew hall ⊢
        refine ⟨new, hnew, hun, List.forall_mem_cons.mpr ⟨?_, hall⟩⟩
        obtain ⟨t, ht, htp⟩ := hp
        exact ⟨t, by rw [hnew]; exact List.mem_append_left _ ht, htp⟩
      · rw [collectThread_of_not_mem hp, List.append_assoc] at hnew
        rw [collectThread_of_not_mem hp] at hall ⊢
        refine ⟨[{ pid := pid }] ++ new, hnew, ?_, List.forall_mem_cons.mpr ⟨?_, hall⟩⟩
        · intro t ht
          cases List.mem_cons.mp ht with
          | inl he => rw [he]
          | inr ht' => exact hun t ht'
        · exact ⟨{ pid := pid }, by rw [hnew]; simp, rfl⟩

/-- A reading that shows no new thread leaves the list as it is. -/
theorem processCollectThreads_of_known (threads : List ThreadS) :
    ∀ {listing : List Nat}, (∀ pid ∈ listing, ∃ t ∈ threads, t.pid = pid) →
      processCollectThreads threads listing = threads
  | [], _ => rfl
  | pid :: listing, h => by
      have hcons : processCollectThreads threads (pid :: listing) =
          processCollectThreads (collectThread threads pid) listing := rfl
      rw [hcons, collectThread_of_mem (h pid (List.mem_cons_self ..))]
      exact processCollectThreads_of_known threads fun q hq => h q (List.mem_cons_of_mem _ hq)

/-- A seized last element means that no unseized entry was appended. -/
theorem eq_nil_of_not_needsSeize {threads new : List ThreadS} (hun : ∀ t ∈ new, t.seized = false)
    (h : processNeedsSeize (threads ++ new) = false) : new = [] := by
  cases hl : new.getLast? with
  | none => exact List.getLast?_eq_none_iff.mp hl
  | some t =>
      have hlast : (threads ++ new).getLast? = some t := by
        rw [List.getLast?_append, hl, Option.some_or]
      have ht : t.seized = false := hun t (List.mem_of_getLast? hl)
      simp [processNeedsSeize, hlast, ht] at h

/-- `errno` is never negative, so a failure is always reported. -/
theorem taskInfect_fail (t : ThreadS) (errno : Nat) :
    taskInfect t (.fail errno) = (some t, -(errno : Int)) := by
  have hs : (errno : Int) ≠ -ESRCH := by
    rw [ESRCH]
    omega
  rw [taskInfect, if_pos hs]

/-! ## Every live thread is seized -/

/-- The invariant of the loop.  In front of a reading every entry is seized.
During a round the entries done are.  At a zero return every live thread has a
seized entry. -/
def SeizeInv (s : InfectSys) : Prop :=
  match s.pc with
  | .collect threads => ∀ t ∈ threads, t.seized = true ∧ t.pid ∈ s.stopped
  | .seize done _ => ∀ t ∈ done, t.seized = true ∧ t.pid ∈ s.stopped
  | .cure err _ => err ≠ 0
  | .exit ret threads =>
      ret = 0 → ∀ tid ∈ s.live, ∃ t ∈ threads, t.pid = tid ∧ t.seized = true ∧ tid ∈ s.stopped

theorem SeizeInv.afterCollect {s : InfectSys} {threads : List ThreadS} {listing : List Nat}
    (h : ∀ t ∈ threads, t.seized = true ∧ t.pid ∈ s.stopped)
    (hl : ∀ tid ∈ s.live, tid ∈ listing) :
    SeizeInv { s with pc := .afterCollect (processCollectThreads threads listing) } := by
  obtain ⟨new, hnew, hun, hall⟩ := processCollectThreads_eq_append listing threads
  rw [SeizeInv, Pc.afterCollect]
  by_cases hn : processNeedsSeize (processCollectThreads threads listing) = true
  · rw [if_pos hn]
    intro t ht
    cases ht
  · rw [if_neg hn]
    have hsame : processCollectThreads threads listing = threads := by
      rw [hnew] at hn ⊢
      rw [eq_nil_of_not_needsSeize hun (Bool.eq_false_iff.mpr hn), List.append_nil]
    rw [hsame] at hall ⊢
    by_cases he : threads.isEmpty = true
    · rw [if_pos he]
      intro hret
      simp [ESRCH] at hret
    · rw [if_neg he]
      intro _ tid htid
      obtain ⟨t, ht, hp⟩ := hall tid (hl tid htid)
      exact ⟨t, ht, hp, (h t ht).1, hp ▸ (h t ht).2⟩

theorem SeizeInv.afterStop {s : InfectSys} {done todo : List ThreadS} {t : ThreadS}
    {r : StopResult} {stopped : Finset Nat} (h : ∀ t ∈ done, t.seized = true ∧ t.pid ∈ s.stopped)
    (hr : Stops s t.pid r stopped) :
    SeizeInv { s with stopped := stopped, pc := .afterStop done todo (taskInfect t r) } := by
  rw [SeizeInv, Pc.afterStop]
  cases hr with
  | alive =>
      simp only [taskInfect, Option.toList, if_true]
      intro e he
      cases List.mem_append.mp he with
      | inl he' => exact ⟨(h e he').1, Finset.mem_insert_of_mem (h e he').2⟩
      | inr he' =>
          rw [List.mem_singleton] at he'
          subst he'
          exact ⟨rfl, Finset.mem_insert_self ..⟩
  | stopped => simp [taskInfect, EBUSY]
  | zombie hdead => simpa [taskInfect] using h
  | dead hdead => simpa [taskInfect] using h
  | @fail errno hne =>
      rw [taskInfect_fail]
      dsimp only
      rw [if_neg (by omega)]
      show (-(errno : Int)) ≠ 0
      omega

/-- The live threads count only when nsb has returned zero. -/
theorem SeizeInv.of_live {s s' : InfectSys} (h : SeizeInv s) (hpc : s'.pc = s.pc)
    (hstopped : s'.stopped = s.stopped)
    (hlive : ∀ ret threads, s.pc = .exit ret threads → ret = 0 → s'.live ⊆ s.live) :
    SeizeInv s' := by
  rw [SeizeInv] at h ⊢
  rw [hpc, hstopped]
  cases hs : s.pc with
  | collect threads => rw [hs] at h; exact h
  | seize done todo => rw [hs] at h; exact h
  | cure err threads => rw [hs] at h; exact h
  | exit ret threads =>
      rw [hs] at h
      exact fun hret tid htid => h hret tid (hlive ret threads hs hret htid)

/-- Every step of the process and of nsb keeps the invariant. -/
theorem SeizeInv.step {s s' : InfectSys} {l : InfectLabel} (h : SeizeInv s)
    (hs : InfectStep s l s') : SeizeInv s' := by
  cases hs with
  | @clone parent child hlive hstop hborn =>
      refine h.of_live rfl rfl fun ret threads hpc hret => ?_
      -- the parent would have to be stopped, as every live thread is
      rw [SeizeInv, hpc] at h
      obtain ⟨_, _, _, _, hst⟩ := h hret parent hlive
      exact absurd hst hstop
  | die hlive hstop => exact h.of_live rfl rfl fun _ _ _ _ => Finset.erase_subset ..
  | collect hpc hl =>
      rw [SeizeInv, hpc] at h
      exact SeizeInv.afterCollect h hl
  | collectFail hpc hne => exact hne
  | stop hpc hr =>
      rw [SeizeInv, hpc] at h
      exact SeizeInv.afterStop h hr
  | round hpc =>
      rw [SeizeInv, hpc] at h
      exact h
  | @resume err todo t ok hpc =>
      rw [SeizeInv, hpc] at h
      by_cases hz : t.seized = true
      · cases ok with
        | true => simpa [hz, SeizeInv] using h
        | false =>
            simp only [hz, Bool.not_true, Bool.false_eq_true, if_false]
            exact fun hret => absurd hret h
      · simpa [hz, SeizeInv] using h
  | cured hpc =>
      rw [SeizeInv, hpc] at h
      exact fun hret => absurd hret h

theorem SeizeInv.init {s : InfectSys} (h : InfectInit s) : SeizeInv s := by
  rw [SeizeInv, h.pc]
  intro t ht
  cases ht

/-- When `process_infect` has returned zero, every live thread of the process is
in `ctx->threads` and seized, whatever the process did in between. -/
theorem processInfect_seizes_live {s₀ s : InfectSys} {ls : List InfectLabel}
    {threads : List ThreadS} (h₀ : InfectInit s₀) (hrun : Lts.Run InfectStep s₀ ls s)
    (hpc : s.pc = .exit 0 threads) :
    ∀ tid ∈ s.live, ∃ t ∈ threads, t.pid = tid ∧ t.seized = true ∧ tid ∈ s.stopped := by
  have hinv : SeizeInv s :=
    hrun.inv (I := SeizeInv) (fun _ _ _ h hs => h.step hs) (SeizeInv.init h₀)
  rw [SeizeInv, hpc] at hinv
  exact hinv rfl

/-! ## No thread is stopped twice -/

/-- No reading of the directory shows a new thread while an entry is seized. -/
def NoLateThread (s : InfectSys) : InfectLabel → Prop
  | .collect listing =>
      (∃ t ∈ s.pc.threads, t.seized = true) → ∀ pid ∈ listing, ∃ t ∈ s.pc.threads, t.pid = pid
  | _ => True

/-- With `NoLateThread` a round only meets unseized entries. -/
def OneRound (s : InfectSys) : Prop :=
  match s.pc with
  | .collect threads => ∀ t ∈ threads, t.seized = true
  | .seize done todo => (∀ t ∈ done, t.seized = true) ∧ ∀ t ∈ todo, t.seized = false
  | .cure _ _ => True
  | .exit _ _ => True

theorem processNeedsSeize_of_seized {threads : List ThreadS} (hne : threads ≠ [])
    (h : ∀ t ∈ threads, t.seized = true) : processNeedsSeize threads = false := by
  have hlast : threads.getLast? = some (threads.getLast hne) := List.getLast?_eq_some_getLast hne
  simp [processNeedsSeize, hlast, h _ (List.getLast_mem hne)]

/-- Without an entry to seize the loop is left. -/
theorem Pc.afterCollect_exit {threads : List ThreadS} (h : processNeedsSeize threads = false) :
    ∃ ret, Pc.afterCollect threads = .exit ret threads := by
  rw [Pc.afterCollect]
  rw [h]
  by_cases he : threads.isEmpty = true
  · exact ⟨-ESRCH, by simp [he]⟩
  · exact ⟨0, by simp [he]⟩

theorem OneRound.afterCollect {s : InfectSys} {threads : List ThreadS} {listing : List Nat}
    (h : ∀ t ∈ threads, t.seized = true)
    (hlate : (∃ t ∈ threads, t.seized = true) → ∀ pid ∈ listing, ∃ t ∈ threads, t.pid = pid) :
    OneRound { s with pc := .afterCollect (processCollectThreads threads listing) } := by
  cases hn : processNeedsSeize (processCollectThreads threads listing) with
  | false =>
      obtain ⟨ret, hret⟩ := Pc.afterCollect_exit hn
      rw [hret]
      trivial
  | true =>
      -- a seized entry would end the loop, so this is the first reading
      have hnil : threads = [] := by
        by_contra hne
        obtain ⟨t, ht⟩ := List.exists_mem_of_ne_nil threads hne
        rw [processCollectThreads_of_known threads (hlate ⟨t, ht, h t ht⟩),
          processNeedsSeize_of_seized hne h] at hn
        cases hn
      subst hnil
      obtain ⟨new, hnew, hun, -⟩ := processCollectThreads_eq_append listing []
      rw [Pc.afterCollect]
      rw [if_pos hn, hnew]
      refine ⟨fun t ht => ?_, hun⟩
      cases ht

theorem OneRound.afterStop {s : InfectSys} {done todo : List ThreadS} {t : ThreadS}
    {r : StopResult} {stopped : Finset Nat} (hd : ∀ t ∈ done, t.seized = true)
    (ht : ∀ t ∈ todo, t.seized = false) (hr : Stops s t.pid r stopped) :
    OneRound { s with stopped := stopped, pc := .afterStop done todo (taskInfect t r) } := by
  rw [OneRound, Pc.afterStop]
  cases hr with
  | alive =>
      simp only [taskInfect, Option.toList, if_true]
      refine ⟨fun e he => ?_, ht⟩
      cases List.mem_append.mp he with
      | inl he' => exact hd e he'
      | inr he' => rw [List.mem_singleton.mp he']
  | stopped => simp [taskInfect, EBUSY]
  | zombie hdead => simpa [taskInfect] using ⟨hd, ht⟩
  | dead hdead => simpa [taskInfect] using ⟨hd, ht⟩
  | @fail errno hne =>
      rw [taskInfect_fail]
      dsimp only
      rw [if_neg (by omega)]
      trivial

theorem OneRound.step {s s' : InfectSys} {l : InfectLabel} (h : OneRound s)
    (hs : Lts.Guarded InfectStep NoLateThread s l s') : OneRound s' := by
  obtain ⟨hg, hs⟩ := hs
  cases hs with
  | clone hlive hstop hborn => exact h
  | die hlive hstop => exact h
  | collect hpc hl =>
      rw [OneRound, hpc] at h
      rw [NoLateThread, hpc] at hg
      exact OneRound.afterCollect h hg
  | collectFail hpc hne => trivial
  | stop hpc hr =>
      rw [OneRound, hpc] at h
      exact OneRound.afterStop h.1 (fun t ht => h.2 t (List.mem_cons_of_mem _ ht)) hr
  | round hpc =>
      rw [OneRound, hpc] at h
      exact h.1
  | @resume err todo t ok hpc =>
      by_cases hz : t.seized = true
      · cases ok <;> simp [hz, OneRound]
      · simp [hz, OneRound]
  | cured hpc => trivial

theorem OneRound.label {s s' : InfectSys} {l : InfectLabel} (h : OneRound s)
    (hs : Lts.Guarded InfectStep NoLateThread s l s') :
    ∀ t r, l = .stop t r → t.seized = false := by
  rintro t r rfl
  cases hs.2 with
  | stop hpc hr =>
      rw [OneRound, hpc] at h
      exact h.2 t (List.mem_cons_self ..)

/-- In a run in which no thread shows up late, `compel_stop_task` is called on
entries that are not seized only. -/
theorem processInfect_stops_unseized {s₀ s : InfectSys} {ls : List InfectLabel}
    (h₀ : InfectInit s₀) (hrun : Lts.Run (Lts.Guarded InfectStep NoLateThread) s₀ ls s) :
    ∀ t r, .stop t r ∈ ls → t.seized = false := by
  have hinit : OneRound s₀ := by
    rw [OneRound, h₀.pc]
    intro t ht
    cases ht
  intro t r hmem
  exact hrun.labels (I := OneRound) (Q := fun l => ∀ t r, l = .stop t r → t.seized = false)
    (fun _ _ _ h hs => h.step hs) (fun _ _ _ h hs => h.label hs) hinit _ hmem t r rfl

/-! ## Two runs -/

/-- A process that has had threads `1`, `2` and `3`. -/
def threeThreads (live stopped : Finset Nat) (pc : Pc) : InfectSys :=
  { live := live, born := {1, 2, 3}, stopped := stopped, pc := pc }

theorem threeThreads_init : InfectInit (threeThreads {1, 2, 3} ∅ (.collect [])) :=
  ⟨rfl, rfl, Finset.Subset.refl _⟩

/-! nsb reads the directory and seizes thread `1`.  Thread `3` exits before nsb gets
to it.  The second reading shows the two threads that are left. -/

theorem threeThreads_collect : InfectStep (threeThreads {1, 2, 3} ∅ (.collect []))
    (.collect [1, 2, 3])
    (threeThreads {1, 2, 3} ∅ (.seize [] [⟨1, false⟩, ⟨2, false⟩, ⟨3, false⟩])) :=
  @InfectStep.collect (threeThreads {1, 2, 3} ∅ (.collect [])) [] [1, 2, 3] rfl
    (by simp [threeThreads])

theorem threeThreads_first : InfectStep
    (threeThreads {1, 2, 3} ∅ (.seize [] [⟨1, false⟩, ⟨2, false⟩, ⟨3, false⟩]))
    (.stop ⟨1, false⟩ .alive)
    (threeThreads {1, 2, 3} {1} (.seize [⟨1, true⟩] [⟨2, false⟩, ⟨3, false⟩])) :=
  @InfectStep.stop (threeThreads {1, 2, 3} ∅ _) [] [⟨2, false⟩, ⟨3, false⟩] _ _ _ rfl .alive

theorem threeThreads_die : InfectStep
    (threeThreads {1, 2, 3} {1} (.seize [⟨1, true⟩] [⟨2, false⟩, ⟨3, false⟩])) (.die 3)
    (threeThreads {1, 2} {1} (.seize [⟨1, true⟩] [⟨2, false⟩, ⟨3, false⟩])) :=
  @InfectStep.die (threeThreads {1, 2, 3} {1} _) 3 (by simp [threeThreads])
    (by simp [threeThreads])

theorem threeThreads_second : InfectStep
    (threeThreads {1, 2} {1} (.seize [⟨1, true⟩] [⟨2, false⟩, ⟨3, false⟩]))
    (.stop ⟨2, false⟩ .alive)
    (threeThreads {1, 2} {2, 1} (.seize [⟨1, true⟩, ⟨2, true⟩] [⟨3, false⟩])) :=
  @InfectStep.stop (threeThreads {1, 2} {1} _) [⟨1, true⟩] [⟨3, false⟩] _ _ _ rfl .alive

theorem threeThreads_third : InfectStep
    (threeThreads {1, 2} {2, 1} (.seize [⟨1, true⟩, ⟨2, true⟩] [⟨3, false⟩]))
    (.stop ⟨3, false⟩ .dead)
    (threeThreads {1, 2} {2, 1} (.seize [⟨1, true⟩, ⟨2, true⟩] [])) :=
  @InfectStep.stop (threeThreads {1, 2} {2, 1} _) [⟨1, true⟩, ⟨2, true⟩] [] _ _ _ rfl
    (.dead (by simp [threeThreads]))

theorem threeThreads_round : InfectStep
    (threeThreads {1, 2} {2, 1} (.seize [⟨1, true⟩, ⟨2, true⟩] [])) .round
    (threeThreads {1, 2} {2, 1} (.collect [⟨1, true⟩, ⟨2, true⟩])) := .round rfl

theorem threeThreads_again : InfectStep
    (threeThreads {1, 2} {2, 1} (.collect [⟨1, true⟩, ⟨2, true⟩])) (.collect [1, 2])
    (threeThreads {1, 2} {2, 1} (.exit 0 [⟨1, true⟩, ⟨2, true⟩])) :=
  @InfectStep.collect (threeThreads {1, 2} {2, 1} (.collect [⟨1, true⟩, ⟨2, true⟩])) _ [1, 2] rfl
    (by simp [threeThreads])

theorem threeThreads_run :
    Lts.Run (Lts.Guarded InfectStep NoLateThread) (threeThreads {1, 2, 3} ∅ (.collect []))
      [.collect [1, 2, 3], .stop ⟨1, false⟩ .alive, .die 3, .stop ⟨2, false⟩ .alive,
        .stop ⟨3, false⟩ .dead, .round, .collect [1, 2]]
      (threeThreads {1, 2} {2, 1} (.exit 0 [⟨1, true⟩, ⟨2, true⟩])) := by
  have hfirst : NoLateThread (threeThreads {1, 2, 3} ∅ (.collect [])) (.collect [1, 2, 3]) := by
    rintro ⟨t, ht, -⟩
    cases ht
  have hagain : NoLateThread (threeThreads {1, 2} {2, 1} (.collect [⟨1, true⟩, ⟨2, true⟩]))
      (.collect [1, 2]) := by
    intro _
    simp [threeThreads, Pc.threads]
  have guard {s s' : InfectSys} {l : InfectLabel} (hs : InfectStep s l s')
      (hl : NoLateThread s l) : Lts.Guarded InfectStep NoLateThread s l s' := ⟨hl, hs⟩
  exact ((((((Lts.Run.nil.snoc (guard threeThreads_collect hfirst)).snoc
    (guard threeThreads_first trivial)).snoc (guard threeThreads_die trivial)).snoc
    (guard threeThreads_second trivial)).snoc (guard threeThreads_third trivial)).snoc
    (guard threeThreads_round trivial)).snoc (guard threeThreads_again hagain)

theorem processInfect_seizes_threeThreads :
    ∃ ls s threads, Lts.Run InfectStep (threeThreads {1, 2, 3} ∅ (.collect [])) ls s ∧
      s.pc = .exit 0 threads ∧ s.live = {1, 2} ∧
      ∀ tid ∈ s.live, ∃ t ∈ threads, t.pid = tid ∧ t.seized = true ∧ tid ∈ s.stopped :=
  ⟨_, _, _, threeThreads_run.mono, rfl, rfl,
    processInfect_seizes_live threeThreads_init threeThreads_run.mono rfl⟩

theorem processInfect_stops_threeThreads :
    ∃ ls s, Lts.Run (Lts.Guarded InfectStep NoLateThread)
        (threeThreads {1, 2, 3} ∅ (.collect [])) ls s ∧
      InfectLabel.stop ⟨1, false⟩ .alive ∈ ls ∧ InfectLabel.stop ⟨2, false⟩ .alive ∈ ls ∧
      ∀ t r, .stop t r ∈ ls → t.seized = false :=
  ⟨_, _, threeThreads_run, by simp, by simp,
    processInfect_stops_unseized threeThreads_init threeThreads_run⟩

/-- A process with thread `1` alone. -/
def oneThread (stopped : Finset Nat) (pc : Pc) : InfectSys :=
  { live := {1}, born := {1}, stopped := stopped, pc := pc }

theorem oneThread_init : InfectInit (oneThread ∅ (.collect [])) :=
  ⟨rfl, rfl, Finset.Subset.refl _⟩

theorem oneThread_collect : InfectStep (oneThread ∅ (.collect [])) (.collect [1])
    (oneThread ∅ (.seize [] [⟨1, false⟩])) :=
  @InfectStep.collect (oneThread ∅ (.collect [])) [] [1] rfl (by simp [oneThread])

/-- The same process after thread `1` has cloned thread `2`. -/
def twoThreads (stopped : Finset Nat) (pc : Pc) : InfectSys :=
  { live := {2, 1}, born := {2, 1}, stopped := stopped, pc := pc }

/-- Thread `1` clones thread `2` between the first reading and its own seizing.
The second round goes over the list from its start and stops thread `1` again. -/
theorem secondRound_stops_seized :
    ¬ ∀ s₀ ls s, InfectInit s₀ → Lts.Run InfectStep s₀ ls s →
      ∀ t r, .stop t r ∈ ls → t.seized = false := by
  intro h
  have s2 : InfectStep (oneThread ∅ (.seize [] [⟨1, false⟩])) (.clone 1 2)
      (twoThreads ∅ (.seize [] [⟨1, false⟩])) :=
    @InfectStep.clone (oneThread ∅ (.seize [] [⟨1, false⟩])) 1 2 (by simp [oneThread])
      (by simp [oneThread]) (by simp [oneThread])
  have s3 : InfectStep (twoThreads ∅ (.seize [] [⟨1, false⟩])) (.stop ⟨1, false⟩ .alive)
      (twoThreads {1} (.seize [⟨1, true⟩] [])) :=
    @InfectStep.stop (twoThreads ∅ (.seize [] [⟨1, false⟩])) [] [] _ _ _ rfl .alive
  have s4 : InfectStep (twoThreads {1} (.seize [⟨1, true⟩] [])) .round
      (twoThreads {1} (.collect [⟨1, true⟩])) := .round rfl
  have s5 : InfectStep (twoThreads {1} (.collect [⟨1, true⟩])) (.collect [1, 2])
      (twoThreads {1} (.seize [] [⟨1, true⟩, ⟨2, false⟩])) :=
    @InfectStep.collect (twoThreads {1} (.collect [⟨1, true⟩])) _ [1, 2] rfl
      (by simp [twoThreads])
  have s6 : InfectStep (twoThreads {1} (.seize [] [⟨1, true⟩, ⟨2, false⟩]))
      (.stop ⟨1, true⟩ (.fail 1)) (twoThreads {1} (.cure (-1) [⟨1, true⟩, ⟨2, false⟩])) :=
    @InfectStep.stop (twoThreads {1} (.seize [] [⟨1, true⟩, ⟨2, false⟩])) [] [⟨2, false⟩] _ _ _ rfl
      (.fail Nat.one_ne_zero)
  have hrun := (((((Lts.Run.nil.snoc oneThread_collect).snoc s2).snoc s3).snoc s4).snoc s5).snoc s6
  exact absurd (h _ _ _ oneThread_init hrun ⟨1, true⟩ (.fail 1) (by simp)) (by decide)

end Nsb
