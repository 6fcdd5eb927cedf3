import Nsb.Patcher.InfectSafety
import Nsb.Patcher.StackCheck
import Nsb.Patcher.StackRange

/-!
# Suspending the process

`process_suspend` of `patcher/process.c` against a process that goes on running: it
seizes the threads, looks for the target and checks every stack, and when a stack is
in the way it lets the threads go, sleeps and tries again, 25 times in all.

The machine is that of `process_infect` with the phases around it (`SuspendPhase`).
The process may clone threads, lose threads, run and change its mappings between any
two steps of nsb, as far as it has threads that are not stopped.  A try may begin
with threads that the one before could not resume.

`processSuspend_safe` is what the patch relies on: when zero has been returned, every
live thread is stopped, and the stack it has now passes the check against the mappings
that there are now.  What is left of the process when an error has been returned is in
`Nsb.Patcher.SuspendRelease`.
-/

namespace Nsb

def ETIME : Int := 62

/-- `increase_timeout`. -/
def increaseTimeout (currentMsec : Nat) : Nat :=
  if currentMsec < 1000 then min (currentMsec <<< 1) 1000 else currentMsec

/-- `tries` of `process_suspend`. -/
def suspendTries : Nat := 25

/-- Where `process_suspend` stands in its try `k`: in `process_infect`, in front of
`process_get_target_info`, in `process_check_stack` with the threads to do, in
`process_cure` with the code to return, in front of the sleep, or returned.  The other
list is `ctx->threads`. -/
inductive SuspendPhase where
  | infect (k : Nat)
  | target (k : Nat) (threads : List ThreadS)
  | check (k : Nat) (range : Addr × Addr) (threads todo : List ThreadS)
  | cure (k : Nat) (ret : Int) (threads : List ThreadS)
  | sleep (k : Nat) (threads : List ThreadS)
  | exit (ret : Int) (threads : List ThreadS)

/-- The end of the loop of `process_suspend`, for the code of `process_catch`. -/
def SuspendPhase.afterCatch (k : Nat) (ret : Int) (threads : List ThreadS) : SuspendPhase :=
  if ret ≠ -EAGAIN then .exit ret threads
  else if k + 1 < suspendTries then .sleep (k + 1) threads
  else .exit (-ETIME) threads

/-- The process and nsb.  `task` is what unwinding a thread shows, and `msec` is
`timeout_msec`. -/
structure SuspendSys where
  sys : InfectSys
  task : Nat → Task
  maps : List Vma
  msec : Nat
  phase : SuspendPhase

/-- `ctx->threads` in a phase. -/
def SuspendPhase.threads (pc : Pc) : SuspendPhase → List ThreadS
  | .infect _ => pc.threads
  | .target _ threads => threads
  | .check _ _ threads _ => threads
  | .cure _ _ threads => threads
  | .sleep _ threads => threads
  | .exit _ threads => threads

/-- `ctx->threads`. -/
def SuspendSys.threads (s : SuspendSys) : List ThreadS := s.phase.threads s.sys.pc

inductive SuspendLabel where
  | thread (l : InfectLabel)
  | runs (tid : Nat)
  | infect (l : InfectLabel)
  | infected
  | target (err : Int)
  | check (t : ThreadS)
  | checked
  | resume (t : ThreadS) (ok : Bool)
  | cured
  | wake (msec : Nat)

/-- The step is one of the process. -/
def InfectLabel.OfProcess : InfectLabel → Prop
  | .clone _ _ => True
  | .die _ => True
  | _ => False

/-- A directory shows threads that there have been. -/
def InfectLabel.Known (born : Finset Nat) : InfectLabel → Prop
  | .collect listing => ∀ pid ∈ listing, pid ∈ born
  | .collectFail listing _ => ∀ pid ∈ listing, pid ∈ born
  | _ => True

section

variable (check : Backtrace → Addr → Addr → Int) (bid : String)

/-- One step of the process or of `process_suspend`. -/
inductive SuspendStep : SuspendSys → SuspendLabel → SuspendSys → Prop where
  | thread {s : SuspendSys} {l : InfectLabel} {sys : InfectSys} :
      InfectStep s.sys l sys → l.OfProcess → SuspendStep s (.thread l) { s with sys := sys }
  /-- A thread that is not stopped changes its stack and the mappings. -/
  | runs {s : SuspendSys} {tid : Nat} {task : Task} {maps : List Vma} :
      tid ∈ s.sys.live → tid ∉ s.sys.stopped →
      SuspendStep s (.runs tid) { s with task := Function.update s.task tid task, maps := maps }
  | infect {s : SuspendSys} {k : Nat} {l : InfectLabel} {sys : InfectSys} :
      s.phase = .infect k → InfectStep s.sys l sys → ¬ l.OfProcess → l.Known s.sys.born →
      SuspendStep s (.infect l) { s with sys := sys }
  | infected {s : SuspendSys} {k : Nat} {ret : Int} {threads : List ThreadS} :
      s.phase = .infect k → s.sys.pc = .exit ret threads →
      SuspendStep s .infected
        { s with phase := if ret ≠ 0 then .afterCatch k ret threads else .target k threads }
  | target {s : SuspendSys} {k : Nat} {threads : List ThreadS} {range : Addr × Addr} :
      s.phase = .target k threads → processGetTargetInfo s.maps bid = .ok range →
      SuspendStep s (.target 0) { s with phase := .check k range threads threads }
  /-- The target is not found, or the mappings cannot be read. -/
  | targetFail {s : SuspendSys} {k : Nat} {threads : List ThreadS} {err : Int} :
      s.phase = .target k threads → err ≠ 0 →
      SuspendStep s (.target err) { s with phase := .cure k err threads }
  | check {s : SuspendSys} {k : Nat} {range : Addr × Addr} {threads todo : List ThreadS}
      {t : ThreadS} :
      s.phase = .check k range threads (t :: todo) →
      SuspendStep s (.check t)
        { s with phase :=
            if taskCheckStack check (s.task t.pid) range.1 range.2 ≠ 0 then
              .cure k (taskCheckStack check (s.task t.pid) range.1 range.2) threads
            else .check k range threads todo }
  | checked {s : SuspendSys} {k : Nat} {range : Addr × Addr} {threads : List ThreadS} :
      s.phase = .check k range threads [] →
      SuspendStep s .checked { s with phase := .exit 0 threads }
  | resume {s : SuspendSys} {k : Nat} {ret : Int} {t : ThreadS} {todo : List ThreadS} {ok : Bool} :
      s.phase = .cure k ret (t :: todo) →
      SuspendStep s (.resume t ok)
        (if !t.seized then { s with phase := .cure k ret todo }
         else if ok then
          { s with sys := { s.sys with stopped := s.sys.stopped.erase t.pid }
                   phase := .cure k ret todo }
         else { s with phase := .afterCatch k ret (t :: todo) })
  | cured {s : SuspendSys} {k : Nat} {ret : Int} :
      s.phase = .cure k ret [] → SuspendStep s .cured { s with phase := .afterCatch k ret [] }
  | wake {s : SuspendSys} {k : Nat} {threads : List ThreadS} :
      s.phase = .sleep k threads →
      SuspendStep s (.wake s.msec)
        { s with sys := { s.sys with pc := .collect threads }
                 msec := increaseTimeout s.msec
                 phase := .infect k }

end

/-- The state in which `process_suspend` is called. -/
structure SuspendInit (s : SuspendSys) : Prop where
  infect : InfectInit s.sys
  phase : s.phase = .infect 0
  msec : s.msec = 1

/-! ## The list of threads -/

/-- What holds of `ctx->threads` at any time.  Entries that are not seized come last,
and the threads of the others are stopped. -/
structure Listed (s : InfectSys) (threads : List ThreadS) : Prop where
  nodup : (threads.map ThreadS.pid).Nodup
  ordered : threads.Pairwise fun t u => u.seized = true → t.seized = true
  born : ∀ t ∈ threads, t.pid ∈ s.born
  stopped : ∀ t ∈ threads, t.seized = true → t.pid ∈ s.stopped

/-- All live threads are seized. -/
structure Frozen (s : InfectSys) (threads : List ThreadS) : Prop extends Listed s threads where
  seized : ∀ t ∈ threads, t.seized = true
  all : ∀ tid ∈ s.live, ∃ t ∈ threads, t.pid = tid

/-- The threads there are and those that are stopped have been born. -/
structure Born (s : InfectSys) : Prop where
  live : s.live ⊆ s.born
  stopped : s.stopped ⊆ s.born

section

variable {s s' : InfectSys} {threads done todo : List ThreadS} {t : ThreadS} {l : InfectLabel}

/-- What the process does: it clones a thread or loses one. -/
theorem InfectStep.ofProcess_cases (hs : InfectStep s l s') (hl : l.OfProcess) :
    (∃ parent child, parent ∈ s.live ∧ parent ∉ s.stopped ∧ child ∉ s.born ∧
      s' = { s with live := insert child s.live, born := insert child s.born }) ∨
    ∃ tid, tid ∈ s.live ∧ tid ∉ s.stopped ∧ s' = { s with live := s.live.erase tid } := by
  cases hs with
  | clone hlive hstop hchild => exact .inl ⟨_, _, hlive, hstop, hchild, rfl⟩
  | die hlive hstop => exact .inr ⟨_, hlive, hstop, rfl⟩
  | collect _ _ => exact hl.elim
  | collectFail _ _ => exact hl.elim
  | stop _ _ => exact hl.elim
  | round _ => exact hl.elim
  | resume _ => exact hl.elim
  | cured _ => exact hl.elim

theorem InfectLabel.OfProcess.known (hl : l.OfProcess) (born : Finset Nat) : l.Known born := by
  cases l with
  | collect _ => exact hl.elim
  | collectFail _ _ => exact hl.elim
  | clone _ _ => trivial
  | die _ => trivial
  | stop _ _ => trivial
  | round => trivial
  | resume _ _ => trivial
  | cured => trivial

theorem InfectStep.pc_ofProcess (hs : InfectStep s l s') (hl : l.OfProcess) : s'.pc = s.pc := by
  obtain ⟨_, _, _, _, _, rfl⟩ | ⟨_, _, _, rfl⟩ := hs.ofProcess_cases hl
  · rfl
  · rfl

theorem Born.ofProcess (h : Born s) (hs : InfectStep s l s') (hl : l.OfProcess) : Born s' := by
  obtain ⟨_, _, _, _, _, rfl⟩ | ⟨_, _, _, rfl⟩ := hs.ofProcess_cases hl
  · exact ⟨Finset.insert_subset_insert _ h.live, h.stopped.trans (Finset.subset_insert ..)⟩
  · exact ⟨(Finset.erase_subset ..).trans h.live, h.stopped⟩

theorem Frozen.live_stopped (h : Frozen s threads) {tid : Nat} (htid : tid ∈ s.live) :
    tid ∈ s.stopped := by
  obtain ⟨t, ht, rfl⟩ := h.all tid htid
  exact h.stopped t ht (h.seized t ht)

/-- A process all of whose threads are seized does nothing. -/
theorem Frozen.not_ofProcess (h : Frozen s threads) (hs : InfectStep s l s') : ¬ l.OfProcess := by
  intro hl
  obtain ⟨_, _, hlive, hstop, _, rfl⟩ | ⟨_, hlive, hstop, rfl⟩ := hs.ofProcess_cases hl
  · exact hstop (h.live_stopped hlive)
  · exact hstop (h.live_stopped hlive)

/-- The process does not touch the list. -/
theorem Listed.ofProcess (h : Listed s threads) (hs : InfectStep s l s') (hl : l.OfProcess) :
    Listed s' threads := by
  obtain ⟨_, _, hlive, hstop, hchild, rfl⟩ | ⟨_, hlive, hstop, rfl⟩ := hs.ofProcess_cases hl
  · exact ⟨h.nodup, h.ordered, fun t ht => Finset.mem_insert_of_mem (h.born t ht), h.stopped⟩
  · exact ⟨h.nodup, h.ordered, h.born, h.stopped⟩

/-- More threads are stopped. -/
theorem Listed.busy (h : Listed s threads) (tid : Nat) :
    Listed { s with stopped := insert tid s.stopped } threads :=
  ⟨h.nodup, h.ordered, h.born, fun t ht hsz => Finset.mem_insert_of_mem (h.stopped t ht hsz)⟩

theorem Listed.collectThread (h : Listed s threads) {pid : Nat} (hpid : pid ∈ s.born) :
    Listed s (Nsb.collectThread threads pid) := by
  by_cases hmem : ∃ t ∈ threads, t.pid = pid
  · rw [collectThread_of_mem hmem]
    exact h
  · rw [collectThread_of_not_mem hmem]
    refine ⟨?_, ?_, ?_, ?_⟩
    · rw [List.map_append, List.nodup_append]
      refine ⟨h.nodup, List.nodup_singleton _, ?_⟩
      intro a ha b hb hab
      obtain ⟨t, ht, rfl⟩ := List.mem_map.mp ha
      rw [List.map_singleton, List.mem_singleton] at hb
      exact hmem ⟨t, ht, hab.trans hb⟩
    · rw [List.pairwise_append]
      refine ⟨h.ordered, List.pairwise_singleton .., ?_⟩
      intro t ht u hu hseized
      rw [List.mem_singleton.mp hu] at hseized
      cases hseized
    · rw [List.forall_mem_append, List.forall_mem_singleton]
      exact ⟨h.born, hpid⟩
    · rw [List.forall_mem_append, List.forall_mem_singleton]
      exact ⟨h.stopped, fun hseized => Bool.noConfusion hseized⟩

theorem Listed.collect {listing : List Nat} (h : Listed s threads)
    (hborn : ∀ pid ∈ listing, pid ∈ s.born) :
    Listed s (processCollectThreads threads listing) := by
  induction listing generalizing threads with
  | nil => exact h
  | cons pid listing induction =>
      rw [List.forall_mem_cons] at hborn
      exact induction (h.collectThread hborn.1) hborn.2

/-- An entry that is seized. -/
theorem Listed.seize (h : Listed s (done ++ t :: todo)) (hdone : ∀ u ∈ done, u.seized = true) :
    Listed { s with stopped := insert t.pid s.stopped }
      (done ++ { t with seized := true } :: todo) := by
  have hordered := List.pairwise_append.mp h.ordered
  have htodo := (List.pairwise_cons.mp hordered.2.1).2
  refine ⟨?_, ?_, ?_, ?_⟩
  · have hnodup := h.nodup
    rw [List.map_append, List.map_cons] at hnodup ⊢
    exact hnodup
  · rw [List.pairwise_append, List.pairwise_cons]
    exact ⟨hordered.1, ⟨fun _ _ _ => rfl, htodo⟩, fun u hu _ _ _ => hdone u hu⟩
  · have hborn := h.born
    rw [List.forall_mem_append, List.forall_mem_cons] at hborn ⊢
    exact hborn
  · have hstopped := h.stopped
    rw [List.forall_mem_append, List.forall_mem_cons] at hstopped ⊢
    refine ⟨fun u hu hsz => ?_, fun _ => Finset.mem_insert_self .., fun u hu hsz => ?_⟩
    · exact Finset.mem_insert_of_mem (hstopped.1 u hu hsz)
    · exact Finset.mem_insert_of_mem (hstopped.2.2 u hu hsz)

/-- Without an entry. -/
theorem Listed.drop (h : Listed s (done ++ t :: todo)) : Listed s (done ++ todo) := by
  have hsub : List.Sublist (done ++ todo) (done ++ t :: todo) :=
    (List.Sublist.refl done).append (List.sublist_cons_self t todo)
  exact ⟨h.nodup.sublist (hsub.map _), h.ordered.sublist hsub,
    fun u hu => h.born u (hsub.subset hu), fun u hu => h.stopped u (hsub.subset hu)⟩

/-- The list behind a thread that is resumed. -/
theorem Listed.resume (h : Listed s (t :: todo)) :
    Listed { s with stopped := s.stopped.erase t.pid } todo := by
  have hnodup := List.nodup_cons.mp h.nodup
  have hne : ∀ u ∈ todo, u.pid ≠ t.pid := fun u hu heq =>
    hnodup.1 (heq ▸ List.mem_map_of_mem hu)
  refine ⟨hnodup.2, (List.pairwise_cons.mp h.ordered).2,
    fun u hu => h.born u (List.mem_cons_of_mem _ hu), fun u hu hsz => ?_⟩
  exact Finset.mem_erase.mpr ⟨hne u hu, h.stopped u (List.mem_cons_of_mem _ hu) hsz⟩

/-- A reading after which nothing has to be seized. -/
theorem Listed.frozen {listing : List Nat} (h : Listed s (processCollectThreads threads listing))
    (hlive : ∀ tid ∈ s.live, tid ∈ listing)
    (hn : processNeedsSeize (processCollectThreads threads listing) = false) :
    Frozen s (processCollectThreads threads listing) := by
  obtain ⟨_, _, _, hall⟩ := processCollectThreads_eq_append listing threads
  refine ⟨h, fun t ht => ?_, fun tid htid => hall tid (hlive tid htid)⟩
  have hordered := h.ordered
  generalize processCollectThreads threads listing = l at hordered hn ht
  rcases List.eq_nil_or_concat l with rfl | ⟨front, u, rfl⟩
  · cases ht
  · rw [List.concat_eq_append] at hordered hn ht
    have hu : u.seized = true := by simpa [processNeedsSeize] using hn
    rcases List.mem_append.mp ht with ht | ht
    · exact (List.pairwise_append.mp hordered).2.2 t ht u (List.mem_singleton_self _) hu
    · rw [List.mem_singleton.mp ht]
      exact hu

/-! ## Seizing -/

/-- The invariant of `process_infect`, from any list a try may begin with. -/
structure InfectInv (s : InfectSys) : Prop where
  born : Born s
  listed : Listed s s.pc.threads
  done : ∀ done todo, s.pc = .seize done todo → ∀ t ∈ done, t.seized = true
  err : ∀ err threads, s.pc = .cure err threads → err ≠ 0
  frozen : ∀ threads, s.pc = .exit 0 threads → Frozen s threads

/-- The invariant in front of a reading. -/
theorem InfectInv.collect (hborn : Born s) (h : Listed s threads) :
    InfectInv { s with pc := .collect threads } := by
  refine ⟨⟨hborn.live, hborn.stopped⟩, ⟨h.nodup, h.ordered, h.born, h.stopped⟩, ?_, ?_, ?_⟩
  · exact fun _ _ hpc => by cases hpc
  · exact fun _ _ hpc => by cases hpc
  · exact fun _ hpc => by cases hpc

/-- The invariant on the error path. -/
theorem InfectInv.cure {err : Int} (hborn : Born s) (h : Listed s threads) (herr : err ≠ 0) :
    InfectInv { s with pc := .cure err threads } := by
  refine ⟨⟨hborn.live, hborn.stopped⟩, ⟨h.nodup, h.ordered, h.born, h.stopped⟩, ?_, ?_, ?_⟩
  · exact fun _ _ hpc => by cases hpc
  · rintro _ _ ⟨⟩
    exact herr
  · exact fun _ hpc => by cases hpc

/-- The invariant during a round. -/
theorem InfectInv.seize (hborn : Born s) (h : Listed s (done ++ todo))
    (hdone : ∀ t ∈ done, t.seized = true) : InfectInv { s with pc := .seize done todo } := by
  refine ⟨⟨hborn.live, hborn.stopped⟩, ⟨h.nodup, h.ordered, h.born, h.stopped⟩, ?_, ?_, ?_⟩
  · rintro _ _ ⟨⟩
    exact hdone
  · exact fun _ _ hpc => by cases hpc
  · exact fun _ hpc => by cases hpc

/-- The invariant behind an error. -/
theorem InfectInv.exit {ret : Int} (hborn : Born s) (h : Listed s threads)
    (hret : ret = 0 → Frozen s threads) : InfectInv { s with pc := .exit ret threads } := by
  refine ⟨⟨hborn.live, hborn.stopped⟩, ⟨h.nodup, h.ordered, h.born, h.stopped⟩, ?_, ?_, ?_⟩
  · exact fun _ _ hpc => by cases hpc
  · exact fun _ _ hpc => by cases hpc
  · rintro _ ⟨⟩
    obtain ⟨⟨h1, h2, h3, h4⟩, h5, h6⟩ := hret rfl
    exact ⟨⟨h1, h2, h3, h4⟩, h5, h6⟩

theorem InfectInv.afterCollect {listing : List Nat} (hborn : Born s) (h : Listed s threads)
    (hknown : ∀ pid ∈ listing, pid ∈ s.born) (hlive : ∀ tid ∈ s.live, tid ∈ listing) :
    InfectInv { s with pc := .afterCollect (processCollectThreads threads listing) } := by
  have hlisted := h.collect hknown
  rw [Pc.afterCollect]
  cases hn : processNeedsSeize (processCollectThreads threads listing) with
  | true => exact .seize hborn hlisted (List.forall_mem_nil _)
  | false =>
      rw [if_neg Bool.false_ne_true]
      split
      · exact .exit hborn hlisted (by simp [ESRCH])
      · exact .exit hborn hlisted fun _ => hlisted.frozen hlive hn

theorem InfectInv.afterStop {r : StopResult} {stopped : Finset Nat} (hborn : Born s)
    (h : Listed s (done ++ t :: todo)) (hdone : ∀ u ∈ done, u.seized = true)
    (hr : Stops s t.pid r stopped) :
    InfectInv { s with stopped := stopped, pc := .afterStop done todo (taskInfect t r) } := by
  have hsame : done ++ [t] ++ todo = done ++ t :: todo := by simp
  have hpid : t.pid ∈ s.born := h.born t (List.mem_append_right _ (List.mem_cons_self ..))
  rw [Pc.afterStop]
  cases hr with
  | alive =>
      have hseize := h.seize hdone
      refine InfectInv.seize (s := { s with stopped := insert t.pid s.stopped })
        ⟨hborn.live, Finset.insert_subset hpid hborn.stopped⟩ ?_ ?_
      · simpa [taskInfect] using hseize
      · simpa [taskInfect, or_imp, forall_and] using hdone
  | stopped =>
      have hlisted : Listed _ (done ++ [t] ++ todo) := hsame ▸ h.busy t.pid
      exact InfectInv.cure (s := { s with stopped := insert t.pid s.stopped })
        ⟨hborn.live, Finset.insert_subset hpid hborn.stopped⟩ hlisted (by simp [taskInfect, EBUSY])
  | zombie hdead =>
      refine InfectInv.seize hborn ?_ (by simpa [taskInfect] using hdone)
      simpa [taskInfect] using h.drop
  | dead hdead =>
      refine InfectInv.seize hborn ?_ (by simpa [taskInfect] using hdone)
      simpa [taskInfect] using h.drop
  | @fail errno hne =>
      rw [taskInfect_fail]
      dsimp only
      rw [if_neg (by omega)]
      refine InfectInv.cure hborn ?_ (by omega)
      exact (hsame ▸ h : Listed s (done ++ [t] ++ todo))

/-- Every step of the process and of `process_infect` keeps the invariant. -/
theorem InfectInv.step (h : InfectInv s) (hs : InfectStep s l s') (hknown : l.Known s.born) :
    InfectInv s' := by
  by_cases hl : l.OfProcess
  · have hlisted := h.listed.ofProcess hs hl
    have hpc := hs.pc_ofProcess hl
    refine ⟨h.born.ofProcess hs hl, hpc ▸ hlisted, hpc ▸ h.done, hpc ▸ h.err,
      fun threads hexit => ?_⟩
    exact absurd hl ((h.frozen threads (hpc ▸ hexit)).not_ofProcess hs)
  have hlisted := h.listed
  cases hs with
  | clone _ _ _ => exact absurd trivial hl
  | die _ _ => exact absurd trivial hl
  | collect hpc hlive =>
      rw [hpc] at hlisted
      exact .afterCollect h.born hlisted hknown hlive
  | collectFail hpc hne =>
      rw [hpc] at hlisted
      exact .cure h.born (hlisted.collect hknown) hne
  | stop hpc hr =>
      rw [hpc] at hlisted
      exact .afterStop h.born hlisted (h.done _ _ hpc) hr
  | round hpc =>
      rw [hpc, Pc.threads, List.append_nil] at hlisted
      exact .collect h.born hlisted
  | @resume err todo t ok hpc =>
      rw [hpc] at hlisted
      have herr := h.err _ _ hpc
      cases hz : t.seized with
      | false =>
          have hrest : Listed s todo := @Listed.drop s [] todo t hlisted
          exact .cure h.born hrest herr
      | true =>
          cases ok with
          | true =>
              have hstopped := (Finset.erase_subset t.pid s.stopped).trans h.born.stopped
              exact .cure (s := { s with stopped := s.stopped.erase t.pid })
                ⟨h.born.live, hstopped⟩ hlisted.resume herr
          | false => exact .exit h.born hlisted fun hret => absurd hret herr
  | cured hpc =>
      rw [hpc] at hlisted
      exact .exit h.born hlisted fun hret => absurd hret (h.err _ _ hpc)

end

/-! ## The phases -/

section

variable {check : Backtrace → Addr → Addr → Int} {bid : String} {s s' : SuspendSys}
  {threads : List ThreadS}

/-- The stacks of some threads pass the check against the mappings. -/
structure Passed (check : Backtrace → Addr → Addr → Int) (bid : String) (s : SuspendSys)
    (range : Addr × Addr) (threads : List ThreadS) : Prop where
  range_eq : processGetTargetInfo s.maps bid = .ok range
  check_eq : ∀ t ∈ threads, taskCheckStack check (s.task t.pid) range.1 range.2 = 0

/-- What holds in a phase. -/
def SuspendPhase.Holds (check : Backtrace → Addr → Addr → Int) (bid : String) (s : SuspendSys) :
    SuspendPhase → Prop
  | .infect _ => InfectInv s.sys
  | .target _ threads => Frozen s.sys threads
  | .check _ range threads todo => Frozen s.sys threads ∧
      ∃ done, threads = done ++ todo ∧ Passed check bid s range done
  | .cure _ ret threads => ret ≠ 0 ∧ Listed s.sys threads
  | .sleep _ threads => Listed s.sys threads
  | .exit ret threads => Listed s.sys threads ∧
      (ret = 0 → Frozen s.sys threads ∧ ∃ range, Passed check bid s range threads)

/-- The invariant of `process_suspend`. -/
structure SuspendInv (check : Backtrace → Addr → Addr → Int) (bid : String) (s : SuspendSys) :
    Prop where
  born : Born s.sys
  holds : s.phase.Holds check bid s

/-- A step of the process keeps the phases in which it can happen. -/
theorem SuspendInv.ofProcess (h : SuspendInv check bid s) (hborn : Born s'.sys)
    (hphase : s'.phase = s.phase) (hinfect : InfectInv s.sys → InfectInv s'.sys)
    (hlisted : ∀ threads, Listed s.sys threads → Listed s'.sys threads)
    (hfrozen : ∀ threads, ¬ Frozen s.sys threads) : SuspendInv check bid s' := by
  refine ⟨hborn, ?_⟩
  have hholds := h.holds
  rw [hphase]
  cases hp : s.phase with
  | infect k =>
      rw [hp] at hholds
      exact hinfect hholds
  | target k threads =>
      rw [hp] at hholds
      exact absurd hholds (hfrozen threads)
  | check k range threads todo =>
      rw [hp] at hholds
      exact absurd hholds.1 (hfrozen threads)
  | cure k ret threads =>
      rw [hp] at hholds
      exact ⟨hholds.1, hlisted threads hholds.2⟩
  | sleep k threads =>
      rw [hp] at hholds
      exact hlisted threads hholds
  | exit ret threads =>
      rw [hp] at hholds
      exact ⟨hlisted threads hholds.1, fun hret => absurd (hholds.2 hret).1 (hfrozen threads)⟩

/-- A failed try leaves a list the next one may begin with. -/
theorem SuspendInv.afterCatch (hborn : Born s.sys) (h : Listed s.sys threads) {ret : Int}
    (hret : ret ≠ 0) (k : Nat) :
    SuspendInv check bid { s with phase := .afterCatch k ret threads } := by
  refine ⟨hborn, ?_⟩
  dsimp only
  rw [SuspendPhase.afterCatch]
  split
  · exact ⟨h, fun hzero => absurd hzero hret⟩
  · split
    · exact h
    · exact ⟨h, fun hzero => by cases hzero⟩

theorem SuspendInv.infected (h : SuspendInv check bid s) {k : Nat} {ret : Int}
    (hphase : s.phase = .infect k) (hpc : s.sys.pc = .exit ret threads) :
    SuspendInv check bid
      { s with phase := if ret ≠ 0 then .afterCatch k ret threads else .target k threads } := by
  have hholds := h.holds
  rw [hphase] at hholds
  have hlisted := hholds.listed
  rw [hpc] at hlisted
  split
  next hret => exact .afterCatch h.born hlisted hret k
  next hret =>
    obtain rfl := not_not.mp hret
    exact ⟨h.born, hholds.frozen threads hpc⟩

theorem SuspendInv.checkStack (h : SuspendInv check bid s) {k : Nat} {range : Addr × Addr}
    {todo : List ThreadS} {t : ThreadS} (hphase : s.phase = .check k range threads (t :: todo)) :
    SuspendInv check bid
      { s with phase :=
          if taskCheckStack check (s.task t.pid) range.1 range.2 ≠ 0 then
            .cure k (taskCheckStack check (s.task t.pid) range.1 range.2) threads
          else .check k range threads todo } := by
  have hholds := h.holds
  rw [hphase] at hholds
  obtain ⟨hfrozen, done, heq, hpassed⟩ := hholds
  refine ⟨h.born, ?_⟩
  dsimp only
  split
  next hret => exact ⟨hret, hfrozen.toListed⟩
  next hret =>
    refine ⟨hfrozen, done ++ [t], by simpa using heq, hpassed.range_eq, ?_⟩
    rw [List.forall_mem_append, List.forall_mem_singleton]
    exact ⟨hpassed.check_eq, not_not.mp hret⟩

theorem SuspendInv.resume (h : SuspendInv check bid s) {k : Nat} {ret : Int} {t : ThreadS}
    {todo : List ThreadS} (ok : Bool) (hphase : s.phase = .cure k ret (t :: todo)) :
    SuspendInv check bid
      (if !t.seized then { s with phase := .cure k ret todo }
       else if ok then
        { s with sys := { s.sys with stopped := s.sys.stopped.erase t.pid }
                 phase := .cure k ret todo }
       else { s with phase := .afterCatch k ret (t :: todo) }) := by
  have hholds := h.holds
  rw [hphase] at hholds
  obtain ⟨hret, hlisted⟩ := hholds
  cases hz : t.seized with
  | false =>
      have hrest : Listed s.sys todo := @Listed.drop s.sys [] todo t hlisted
      exact ⟨h.born, hret, hrest⟩
  | true =>
      cases ok with
      | true =>
          have hstopped := (Finset.erase_subset t.pid s.sys.stopped).trans h.born.stopped
          exact ⟨⟨h.born.live, hstopped⟩, hret, hlisted.resume⟩
      | false => exact .afterCatch h.born hlisted hret k

/-- Every step of the process and of `process_suspend` keeps the invariant. -/
theorem SuspendInv.step {l : SuspendLabel} (h : SuspendInv check bid s)
    (hs : SuspendStep check bid s l s') : SuspendInv check bid s' := by
  have hholds := h.holds
  cases hs with
  | @thread l sys hstep hl =>
      exact h.ofProcess (h.born.ofProcess hstep hl) rfl
        (fun hinv => hinv.step hstep (hl.known _))
        (fun threads hlisted => hlisted.ofProcess hstep hl)
        fun threads hfrozen => hfrozen.not_ofProcess hstep hl
  | runs hlive hstop =>
      exact h.ofProcess h.born rfl id (fun _ => id) fun threads hfrozen =>
        hstop (hfrozen.live_stopped hlive)
  | infect hphase hstep _ hknown =>
      rw [hphase] at hholds
      have hinv := hholds.step hstep hknown
      refine ⟨hinv.born, ?_⟩
      dsimp only
      rw [hphase]
      exact hinv
  | infected hphase hpc => exact h.infected hphase hpc
  | target hphase hrange =>
      rw [hphase] at hholds
      exact ⟨h.born, hholds, [], rfl, hrange, List.forall_mem_nil _⟩
  | targetFail hphase herr =>
      rw [hphase] at hholds
      exact ⟨h.born, herr, hholds.toListed⟩
  | check hphase => exact h.checkStack hphase
  | checked hphase =>
      rw [hphase] at hholds
      obtain ⟨hfrozen, done, heq, hpassed⟩ := hholds
      rw [List.append_nil] at heq
      subst heq
      exact ⟨h.born, hfrozen.toListed, fun _ => ⟨hfrozen, _, hpassed.range_eq, hpassed.check_eq⟩⟩
  | resume hphase => exact h.resume _ hphase
  | cured hphase =>
      rw [hphase] at hholds
      exact .afterCatch h.born hholds.2 hholds.1 _
  | wake hphase =>
      rw [hphase] at hholds
      exact ⟨⟨h.born.live, h.born.stopped⟩, .collect h.born hholds⟩

theorem SuspendInv.init (h : SuspendInit s) : SuspendInv check bid s := by
  have hborn : Born s.sys := by
    refine ⟨h.infect.born, ?_⟩
    rw [h.infect.stopped]
    exact Finset.empty_subset _
  refine ⟨hborn, ?_⟩
  rw [h.phase]
  have hlisted : Listed s.sys [] :=
    ⟨List.nodup_nil, .nil, List.forall_mem_nil _, List.forall_mem_nil _⟩
  have hinv := InfectInv.collect hborn hlisted
  rw [← h.infect.pc] at hinv
  exact hinv

/-! ## What has been reached -/

theorem processSuspend_inv {s₀ : SuspendSys} {ls : List SuspendLabel} (h₀ : SuspendInit s₀)
    (hrun : Lts.Run (SuspendStep check bid) s₀ ls s) : SuspendInv check bid s :=
  hrun.inv (I := SuspendInv check bid) (fun _ _ _ h hs => h.step hs) (SuspendInv.init h₀)

/-- When `process_suspend` has returned zero, every live thread is stopped and has an
entry that is seized, and the stack that it has passes the check against the mappings
that there are, whatever the process did in between and however many tries failed. -/
theorem processSuspend_safe {s₀ : SuspendSys} {ls : List SuspendLabel} (h₀ : SuspendInit s₀)
    (hrun : Lts.Run (SuspendStep check bid) s₀ ls s) (hphase : s.phase = .exit 0 threads) :
    ∃ range, processGetTargetInfo s.maps bid = .ok range ∧ ∀ tid ∈ s.sys.live,
      tid ∈ s.sys.stopped ∧ (∃ t ∈ threads, t.pid = tid ∧ t.seized = true) ∧
        taskCheckStack check (s.task tid) range.1 range.2 = 0 := by
  have hholds := (processSuspend_inv h₀ hrun).holds
  rw [hphase] at hholds
  obtain ⟨hfrozen, range, hpassed⟩ := hholds.2 rfl
  refine ⟨range, hpassed.range_eq, fun tid htid => ?_⟩
  obtain ⟨t, ht, rfl⟩ := hfrozen.all tid htid
  exact ⟨hfrozen.live_stopped htid, ⟨t, ht, rfl, hfrozen.seized t ht⟩, hpassed.check_eq t ht⟩

/-- The step is no resume that fails. -/
def SuspendLabel.NoFailedResume : SuspendLabel → Prop
  | .infect (.resume _ ok) => ok = true
  | .resume _ ok => ok = true
  | _ => True

theorem SuspendStep.guarded {l : SuspendLabel} (hs : SuspendStep check bid s l s')
    (hl : l.NoFailedResume) :
    Lts.Guarded (SuspendStep check bid) (fun _ l => l.NoFailedResume) s l s' :=
  ⟨hl, hs⟩

/-! ## How long it takes -/

/-- `timeout_msec` in front of a sleep. -/
def timeoutMsec : Nat → Nat
  | 0 => 1
  | k + 1 => increaseTimeout (timeoutMsec k)

/-- The sleeps of a run. -/
def sleeps (ls : List SuspendLabel) : List Nat :=
  ls.filterMap fun
    | .wake msec => some msec
    | _ => none

/-- The number of sleeps so far. -/
def SuspendPhase.Slept (n : Nat) : SuspendPhase → Prop
  | .infect k => k = n ∧ n < suspendTries
  | .target k _ => k = n ∧ n < suspendTries
  | .check k _ _ _ => k = n ∧ n < suspendTries
  | .cure k _ _ => k = n ∧ n < suspendTries
  | .sleep k _ => k = n + 1 ∧ n + 1 < suspendTries
  | .exit _ _ => n < suspendTries

theorem SuspendPhase.afterCatch_slept {k n : Nat} (h : k = n ∧ n < suspendTries) (ret : Int)
    (threads : List ThreadS) : (SuspendPhase.afterCatch k ret threads).Slept n := by
  obtain ⟨rfl, hlt⟩ := h
  rw [SuspendPhase.afterCatch]
  split
  · exact hlt
  · split
    next hlt' => exact ⟨rfl, hlt'⟩
    next => exact hlt

theorem SuspendPhase.Slept.le {phase : SuspendPhase} {n : Nat} (h : phase.Slept n) : n ≤ 24 := by
  cases phase with
  | infect _ => exact Nat.le_of_lt_succ h.2
  | target _ _ => exact Nat.le_of_lt_succ h.2
  | check _ _ _ _ => exact Nat.le_of_lt_succ h.2
  | cure _ _ _ => exact Nat.le_of_lt_succ h.2
  | sleep _ _ => exact Nat.le_of_succ_le (Nat.le_of_lt_succ h.2)
  | exit _ _ => exact Nat.le_of_lt_succ h

/-- The sleeps are those of the first tries. -/
structure SleepInv (ls : List SuspendLabel) (s : SuspendSys) : Prop where
  slept : s.phase.Slept (sleeps ls).length
  msec : s.msec = timeoutMsec (sleeps ls).length
  sleeps_eq : sleeps ls = (List.range (sleeps ls).length).map timeoutMsec

theorem SleepInv.step {ls : List SuspendLabel} {l : SuspendLabel} (h : SleepInv ls s)
    (hs : SuspendStep check bid s l s') : SleepInv (ls ++ [l]) s' := by
  obtain ⟨hslept, hmsec, heq⟩ := h
  have happ : sleeps (ls ++ [l]) = sleeps ls ++ sleeps [l] := List.filterMap_append
  have hquiet (hl : sleeps [l] = []) (hphase : s'.phase.Slept (sleeps ls).length)
      (hms : s'.msec = s.msec) : SleepInv (ls ++ [l]) s' := by
    rw [hl, List.append_nil] at happ
    exact ⟨happ ▸ hphase, happ ▸ hms.trans hmsec, happ ▸ heq⟩
  cases hs with
  | thread _ _ => exact hquiet rfl hslept rfl
  | runs _ _ => exact hquiet rfl hslept rfl
  | infect _ _ _ _ => exact hquiet rfl hslept rfl
  | infected hphase _ =>
      rw [hphase] at hslept
      refine hquiet rfl ?_ rfl
      dsimp only
      split
      · exact SuspendPhase.afterCatch_slept hslept _ _
      · exact hslept
  | target hphase _ =>
      rw [hphase] at hslept
      exact hquiet rfl hslept rfl
  | targetFail hphase _ =>
      rw [hphase] at hslept
      exact hquiet rfl hslept rfl
  | check hphase =>
      rw [hphase] at hslept
      refine hquiet rfl ?_ rfl
      dsimp only
      split
      · exact hslept
      · exact hslept
  | checked hphase =>
      rw [hphase] at hslept
      exact hquiet rfl hslept.2 rfl
  | @resume _ _ t _ ok hphase =>
      rw [hphase] at hslept
      refine hquiet rfl ?_ ?_
      · split
        · exact hslept
        · split
          · exact hslept
          · exact SuspendPhase.afterCatch_slept hslept _ _
      · split
        · rfl
        · split
          · rfl
          · rfl
  | cured hphase =>
      rw [hphase] at hslept
      exact hquiet rfl (SuspendPhase.afterCatch_slept hslept _ _) rfl
  | wake hphase =>
      rw [hphase] at hslept
      have hone : sleeps [SuspendLabel.wake s.msec] = [s.msec] := rfl
      rw [hone] at happ
      have hlen : (sleeps (ls ++ [.wake s.msec])).length = (sleeps ls).length + 1 := by
        rw [happ, List.length_append]
        rfl
      refine ⟨?_, ?_, ?_⟩
      · rw [hlen]
        exact hslept
      · rw [hlen, timeoutMsec, ← hmsec]
      · rw [hlen, List.range_succ, List.map_append, ← heq, happ, hmsec]
        rfl

/-- However the process behaves, `process_suspend` sleeps at most 24 times, for 1, 2, 4
and so on up to 512 and then for 1000 milliseconds, which are 15023 in all. -/
theorem processSuspend_sleeps {s₀ : SuspendSys} {ls : List SuspendLabel} (h₀ : SuspendInit s₀)
    (hrun : Lts.Run (SuspendStep check bid) s₀ ls s) :
    sleeps ls <+: (List.range 24).map timeoutMsec ∧ (sleeps ls).sum ≤ 15023 := by
  have hinit : SleepInv [] s₀ := by
    refine ⟨?_, h₀.msec, rfl⟩
    rw [h₀.phase]
    exact ⟨rfl, by decide⟩
  have hinv : SleepInv ls s := hrun.inv_labels (fun _ _ _ _ h hs => h.step hs) hinit
  have hlt : (sleeps ls).length ≤ 24 := hinv.slept.le
  have hpre : sleeps ls <+: (List.range 24).map timeoutMsec := by
    have htake : List.range (sleeps ls).length = (List.range 24).take (sleeps ls).length := by
      rw [List.take_range, Nat.min_eq_left hlt]
    rw [hinv.sleeps_eq, htake]
    exact (List.take_prefix ..).map _
  refine ⟨hpre, ?_⟩
  obtain ⟨rest, hrest⟩ := hpre
  have hsum : ((List.range 24).map timeoutMsec).sum = 15023 := by decide
  rw [← hrest, List.sum_append] at hsum
  omega

end

/-! ## A process with three threads -/

/-- One page of the target. -/
def suspendMaps : List Vma :=
  [{ addr := 0x400000, length := 0x1000, path := some "target.so"
     mapFile := some (.elf { bid := some "target" }) }]

/-- Thread `1` is inside the function that starts at `0x400200`, the others are in one
at `0x400600`. -/
def suspendTask (tid : Nat) : Task :=
  { stack := .caller { ip := if tid = 1 then 0x400210 else 0x400610 }
      (.outermost { ip := 0x400500 }) }

/-- A patch for the function with the offset. -/
def suspendCheck (funcValue : BitVec 64) : Backtrace → Addr → Addr → Int :=
  jumpsCheckBacktrace { targetBid := "target", patchBid := "patch",
                        funcJumps := [{ funcValue := funcValue, funcSize := 0x40
                                        patchValue := 0 }] }

/-- The threads of `threeThreads` in a phase. -/
def threeSuspend (live stopped : Finset Nat) (pc : Pc) (phase : SuspendPhase) : SuspendSys :=
  { sys := threeThreads live stopped pc, task := suspendTask, maps := suspendMaps, msec := 1
    phase := phase }

theorem threeSuspend_init :
    SuspendInit (threeSuspend {1, 2, 3} ∅ (.collect []) (.infect 0)) :=
  ⟨threeThreads_init, rfl, rfl⟩

section

variable (check : Backtrace → Addr → Addr → Int)

/-- Thread `1` is seized, and thread `3` exits. -/
theorem threeSuspend_begun : ∃ ls,
    Lts.Run (Lts.Guarded (SuspendStep check "target") fun _ l => l.NoFailedResume)
      (threeSuspend {1, 2, 3} ∅ (.collect []) (.infect 0)) ls
      (threeSuspend {1, 2} {1} (.seize [⟨1, true⟩] [⟨2, false⟩, ⟨3, false⟩]) (.infect 0)) := by
  have s1 : SuspendStep check "target" (threeSuspend {1, 2, 3} ∅ (.collect []) (.infect 0))
      (.infect (.collect [1, 2, 3])) (threeSuspend {1, 2, 3} ∅
        (.seize [] [⟨1, false⟩, ⟨2, false⟩, ⟨3, false⟩]) (.infect 0)) :=
    .infect rfl threeThreads_collect id
      (by simp [InfectLabel.Known, threeSuspend, threeThreads])
  have s2 : SuspendStep check "target" (threeSuspend {1, 2, 3} ∅
        (.seize [] [⟨1, false⟩, ⟨2, false⟩, ⟨3, false⟩]) (.infect 0))
      (.infect (.stop ⟨1, false⟩ .alive)) (threeSuspend {1, 2, 3} {1}
        (.seize [⟨1, true⟩] [⟨2, false⟩, ⟨3, false⟩]) (.infect 0)) :=
    .infect rfl threeThreads_first id trivial
  have s3 : SuspendStep check "target" (threeSuspend {1, 2, 3} {1}
        (.seize [⟨1, true⟩] [⟨2, false⟩, ⟨3, false⟩]) (.infect 0)) (.thread (.die 3))
      (threeSuspend {1, 2} {1} (.seize [⟨1, true⟩] [⟨2, false⟩, ⟨3, false⟩]) (.infect 0)) :=
    .thread threeThreads_die trivial
  exact ⟨_, ((Lts.Run.nil.snoc (s1.guarded trivial)).snoc (s2.guarded trivial)).snoc
    (s3.guarded trivial)⟩

/-- The process with threads `1` and `2` seized, in a phase. -/
def threeSeized (phase : SuspendPhase) : SuspendSys :=
  threeSuspend {1, 2} {2, 1} (.exit 0 [⟨1, true⟩, ⟨2, true⟩]) phase

theorem threeSuspend_seized : ∃ ls, Lts.Run (SuspendStep check "target")
      (threeSuspend {1, 2, 3} ∅ (.collect []) (.infect 0)) ls
      (threeSeized (.target 0 [⟨1, true⟩, ⟨2, true⟩])) := by
  obtain ⟨ls, hrun⟩ := threeSuspend_begun check
  have s1 : SuspendStep check "target"
      (threeSuspend {1, 2} {1} (.seize [⟨1, true⟩] [⟨2, false⟩, ⟨3, false⟩]) (.infect 0))
      (.infect (.stop ⟨2, false⟩ .alive))
      (threeSuspend {1, 2} {2, 1} (.seize [⟨1, true⟩, ⟨2, true⟩] [⟨3, false⟩]) (.infect 0)) :=
    .infect rfl threeThreads_second id trivial
  have s2 : SuspendStep check "target"
      (threeSuspend {1, 2} {2, 1} (.seize [⟨1, true⟩, ⟨2, true⟩] [⟨3, false⟩]) (.infect 0))
      (.infect (.stop ⟨3, false⟩ .dead))
      (threeSuspend {1, 2} {2, 1} (.seize [⟨1, true⟩, ⟨2, true⟩] []) (.infect 0)) :=
    .infect rfl threeThreads_third id trivial
  have s3 : SuspendStep check "target"
      (threeSuspend {1, 2} {2, 1} (.seize [⟨1, true⟩, ⟨2, true⟩] []) (.infect 0))
      (.infect .round)
      (threeSuspend {1, 2} {2, 1} (.collect [⟨1, true⟩, ⟨2, true⟩]) (.infect 0)) :=
    .infect rfl threeThreads_round id trivial
  have s4 : SuspendStep check "target"
      (threeSuspend {1, 2} {2, 1} (.collect [⟨1, true⟩, ⟨2, true⟩]) (.infect 0))
      (.infect (.collect [1, 2])) (threeSeized (.infect 0)) :=
    .infect rfl threeThreads_again id (by simp [InfectLabel.Known, threeSuspend, threeThreads])
  have s5 : SuspendStep check "target" (threeSeized (.infect 0)) .infected
      (threeSeized (.target 0 [⟨1, true⟩, ⟨2, true⟩])) :=
    @SuspendStep.infected _ _ (threeSeized (.infect 0)) _ _ _ rfl rfl
  exact ⟨_, ((((hrun.mono.snoc s1).snoc s2).snoc s3).snoc s4).snoc s5⟩

theorem threeSeized_target :
    SuspendStep check "target" (threeSeized (.target 0 [⟨1, true⟩, ⟨2, true⟩])) (.target 0)
      (threeSeized (.check 0 (0x400000, 0x401000) [⟨1, true⟩, ⟨2, true⟩]
        [⟨1, true⟩, ⟨2, true⟩])) :=
  .target rfl rfl

/-- A stack that passes the check. -/
theorem threeSeized_check {t : ThreadS} {todo : List ThreadS}
    (hpass : taskCheckStack check (suspendTask t.pid) 0x400000 0x401000 = 0) :
    SuspendStep check "target"
      (threeSeized (.check 0 (0x400000, 0x401000) [⟨1, true⟩, ⟨2, true⟩] (t :: todo))) (.check t)
      (threeSeized (.check 0 (0x400000, 0x401000) [⟨1, true⟩, ⟨2, true⟩] todo)) := by
  have hstep := @SuspendStep.check check "target"
    (threeSeized (.check 0 (0x400000, 0x401000) [⟨1, true⟩, ⟨2, true⟩] (t :: todo))) _ _ _ _ _ rfl
  rw [if_neg (not_not.mpr (by exact hpass))] at hstep
  exact hstep

end

/-- Neither thread is in the function at `0x400800`. -/
theorem threeSuspend_safe : ∃ ls s threads,
    Lts.Run (SuspendStep (suspendCheck 0x800) "target")
      (threeSuspend {1, 2, 3} ∅ (.collect []) (.infect 0)) ls s ∧ s.phase = .exit 0 threads ∧
    s.sys.live = {1, 2} ∧
    ∃ range, processGetTargetInfo s.maps "target" = .ok range ∧ ∀ tid ∈ s.sys.live,
      tid ∈ s.sys.stopped ∧ (∃ t ∈ threads, t.pid = tid ∧ t.seized = true) ∧
        taskCheckStack (suspendCheck 0x800) (s.task tid) range.1 range.2 = 0 := by
  obtain ⟨ls, hrun⟩ := threeSuspend_seized (suspendCheck 0x800)
  have s1 := threeSeized_target (suspendCheck 0x800)
  have s2 := @threeSeized_check (suspendCheck 0x800) ⟨1, true⟩ [⟨2, true⟩] (by decide)
  have s3 := @threeSeized_check (suspendCheck 0x800) ⟨2, true⟩ [] (by decide)
  have s4 : SuspendStep (suspendCheck 0x800) "target"
      (threeSeized (.check 0 (0x400000, 0x401000) [⟨1, true⟩, ⟨2, true⟩] [])) .checked
      (threeSeized (.exit 0 [⟨1, true⟩, ⟨2, true⟩])) := .checked rfl
  have hfull := (((hrun.snoc s1).snoc s2).snoc s3).snoc s4
  exact ⟨_, _, _, hfull, rfl, rfl, processSuspend_safe threeSuspend_init hfull rfl⟩

/-- Thread `1` is in the function at `0x400200`, and there is a second try. -/
theorem threeSuspend_sleeps : ∃ ls s, Lts.Run (SuspendStep (suspendCheck 0x200) "target")
      (threeSuspend {1, 2, 3} ∅ (.collect []) (.infect 0)) ls s ∧ s.phase = .infect 1 ∧
    1 ∈ sleeps ls ∧
    sleeps ls <+: (List.range 24).map timeoutMsec ∧ (sleeps ls).sum ≤ 15023 := by
  obtain ⟨ls, hrun⟩ := threeSuspend_seized (suspendCheck 0x200)
  have s1 := threeSeized_target (suspendCheck 0x200)
  have s2 : SuspendStep (suspendCheck 0x200) "target"
      (threeSeized (.check 0 (0x400000, 0x401000) [⟨1, true⟩, ⟨2, true⟩]
        [⟨1, true⟩, ⟨2, true⟩])) (.check ⟨1, true⟩)
      (threeSeized (.cure 0 (-EAGAIN) [⟨1, true⟩, ⟨2, true⟩])) := by
    have hfail : taskCheckStack (suspendCheck 0x200) (suspendTask 1) 0x400000 0x401000 =
        -EAGAIN := by decide
    have hstep := @SuspendStep.check (suspendCheck 0x200) "target"
      (threeSeized (.check 0 (0x400000, 0x401000) [⟨1, true⟩, ⟨2, true⟩]
        [⟨1, true⟩, ⟨2, true⟩])) _ _ _ _ _ rfl
    have htask : (threeSeized (.check 0 (0x400000, 0x401000) [⟨1, true⟩, ⟨2, true⟩]
        [⟨1, true⟩, ⟨2, true⟩])).task 1 = suspendTask 1 := rfl
    rw [htask, hfail] at hstep
    exact hstep
  -- both threads are resumed before the sleep
  have s3 : SuspendStep (suspendCheck 0x200) "target"
      (threeSeized (.cure 0 (-EAGAIN) [⟨1, true⟩, ⟨2, true⟩])) (.resume ⟨1, true⟩ true)
      (threeSuspend {1, 2} {2} (.exit 0 [⟨1, true⟩, ⟨2, true⟩])
        (.cure 0 (-EAGAIN) [⟨2, true⟩])) :=
    @SuspendStep.resume _ _ (threeSeized (.cure 0 (-EAGAIN) [⟨1, true⟩, ⟨2, true⟩])) _ _ _ _ true
      rfl
  have s4 : SuspendStep (suspendCheck 0x200) "target"
      (threeSuspend {1, 2} {2} (.exit 0 [⟨1, true⟩, ⟨2, true⟩]) (.cure 0 (-EAGAIN) [⟨2, true⟩]))
      (.resume ⟨2, true⟩ true)
      (threeSuspend {1, 2} ∅ (.exit 0 [⟨1, true⟩, ⟨2, true⟩]) (.cure 0 (-EAGAIN) [])) :=
    @SuspendStep.resume _ _ (threeSuspend {1, 2} {2} (.exit 0 [⟨1, true⟩, ⟨2, true⟩])
      (.cure 0 (-EAGAIN) [⟨2, true⟩])) _ _ _ _ true rfl
  have s5 : SuspendStep (suspendCheck 0x200) "target"
      (threeSuspend {1, 2} ∅ (.exit 0 [⟨1, true⟩, ⟨2, true⟩]) (.cure 0 (-EAGAIN) [])) .cured
      (threeSuspend {1, 2} ∅ (.exit 0 [⟨1, true⟩, ⟨2, true⟩]) (.sleep 1 [])) :=
    @SuspendStep.cured _ _ (threeSuspend {1, 2} ∅ (.exit 0 [⟨1, true⟩, ⟨2, true⟩])
      (.cure 0 (-EAGAIN) [])) _ _ rfl
  have s6 : SuspendStep (suspendCheck 0x200) "target"
      (threeSuspend {1, 2} ∅ (.exit 0 [⟨1, true⟩, ⟨2, true⟩]) (.sleep 1 [])) (.wake 1)
      { threeSuspend {1, 2} ∅ (.collect []) (.infect 1) with msec := 2 } :=
    @SuspendStep.wake _ _ (threeSuspend {1, 2} ∅ (.exit 0 [⟨1, true⟩, ⟨2, true⟩]) (.sleep 1 []))
      _ _ rfl
  have hfull := (((((hrun.snoc s1).snoc s2).snoc s3).snoc s4).snoc s5).snoc s6
  exact ⟨_, _, hfull, rfl, by simp [sleeps], processSuspend_sleeps threeSuspend_init hfull⟩

end Nsb
