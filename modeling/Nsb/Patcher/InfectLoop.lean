import Nsb.Patcher.InfectSafety

/-!
# The loop of seizing

`process_infect` against threads that do not change: the `n`-th reading of
`/proc/PID/task` shows `listing n`, and `compel_stop_task` reports the same state
of a thread every time.  The loop has no bound.  It is left when a reading shows
a stopped thread, which is an error, or when a reading adds nothing to a list that
is not empty.

A zombie or dead thread is taken out of the list and put back by the next reading.
While the directory shows one, every reading adds an entry and the loop goes on
(`infectLoop_left_iff`).
-/

namespace Nsb

/-- The states of a thread. -/
inductive TaskState where
  | alive
  | stopped
  | zombie
  | dead
deriving DecidableEq, Repr

/-- What `compel_stop_task` reports of a thread in a state. -/
def TaskState.report : TaskState → StopResult
  | .alive => .alive
  | .stopped => .stopped
  | .zombie => .zombie
  | .dead => .dead

variable (state : Nat → TaskState)

/-- `process_infect_threads`. -/
def processInfectThreads (threads : List ThreadS) : List ThreadS × Int :=
  let (threads, _, err) := Loop.eachSafe
    (fun t (_ : Unit) => ((taskInfect t (state t.pid).report).1, (),
      (taskInfect t (state t.pid).report).2)) threads ()
  (threads, err)

/-- The loop of `process_infect`: it goes on with `ctx->threads`, or it is left
with a return code. -/
inductive InfectLoop where
  | goesOn (threads : List ThreadS)
  | left (ret : Int)

/-- One round of the loop, for a reading of the directory. -/
def infectRound (threads : List ThreadS) (listing : List Nat) : InfectLoop :=
  let threads := processCollectThreads threads listing
  if !processNeedsSeize threads then .left (if threads.isEmpty then -ESRCH else 0)
  else
    let (threads, err) := processInfectThreads state threads
    if err ≠ 0 then .left err else .goesOn threads

/-- The loop after a number of readings. -/
def infectLoop (listing : Nat → List Nat) : Nat → InfectLoop
  | 0 => .goesOn []
  | n + 1 =>
      match infectLoop listing n with
      | .left ret => .left ret
      | .goesOn threads => infectRound state threads (listing n)

/-! ## One round -/

variable {state}

/-- An entry behind a reading was there or is one of the directory. -/
theorem mem_processCollectThreads {threads : List ThreadS} {listing : List Nat} {t : ThreadS}
    (h : t ∈ processCollectThreads threads listing) : t ∈ threads ∨ t.pid ∈ listing := by
  induction listing generalizing threads with
  | nil => exact .inl h
  | cons pid listing induction =>
      rcases @induction (collectThread threads pid) h with hmem | hmem
      · by_cases hp : ∃ u ∈ threads, u.pid = pid
        · rw [collectThread_of_mem hp] at hmem
          exact .inl hmem
        · rw [collectThread_of_not_mem hp] at hmem
          rcases List.mem_append.mp hmem with hmem | hmem
          · exact .inl hmem
          · rw [List.mem_singleton.mp hmem]
            exact .inr (List.mem_cons_self ..)
      · exact .inr (List.mem_cons_of_mem _ hmem)

theorem taskInfect_report (t : ThreadS) :
    (taskInfect t (state t.pid).report).2 = (if state t.pid = .stopped then -EBUSY else 0) ∧
    (state t.pid ≠ .stopped → (taskInfect t (state t.pid).report).1 =
      if state t.pid = .alive then some { t with seized := true } else none) := by
  cases state t.pid with
  | alive => exact ⟨rfl, fun _ => rfl⟩
  | stopped => exact ⟨rfl, fun h => absurd rfl h⟩
  | zombie => exact ⟨rfl, fun _ => rfl⟩
  | dead => exact ⟨rfl, fun _ => rfl⟩

/-- The entries of the threads that are alive, seized. -/
def seizeAlive (state : Nat → TaskState) (threads : List ThreadS) : List ThreadS :=
  threads.filterMap fun t => if state t.pid = .alive then some { t with seized := true } else none

theorem mem_seizeAlive_iff {threads : List ThreadS} {t : ThreadS} :
    t ∈ seizeAlive state threads ↔
      ∃ u ∈ threads, state u.pid = .alive ∧ t = { u with seized := true } := by
  rw [seizeAlive, List.mem_filterMap]
  constructor
  · rintro ⟨u, hmem, hu⟩
    split at hu
    · next halive =>
        cases hu
        exact ⟨u, hmem, halive, rfl⟩
    · cases hu
  · rintro ⟨u, hmem, halive, rfl⟩
    exact ⟨u, hmem, if_pos halive⟩

/-- `process_infect_threads` fails on a stopped thread and keeps those that are
alive otherwise. -/
theorem processInfectThreads_eq (threads : List ThreadS) :
    ((processInfectThreads state threads).2 = 0 ↔ ∀ t ∈ threads, state t.pid ≠ .stopped) ∧
    ((∀ t ∈ threads, state t.pid ≠ .stopped) →
      (processInfectThreads state threads).1 = seizeAlive state threads) := by
  have hret (t : ThreadS) : (taskInfect t (state t.pid).report).2 = 0 ↔ state t.pid ≠ .stopped := by
    rw [(taskInfect_report t).1]
    by_cases h : state t.pid = .stopped
    · simp [h, EBUSY]
    · simp [h]
  constructor
  · show (Loop.eachSafe _ threads ()).2.2 = 0 ↔ _
    rw [Loop.eachSafe_ret_eq_zero]
    exact forall_congr' fun t => forall_congr' fun _ => hret t
  · intro hall
    show (Loop.eachSafe _ threads ()).1 = _
    rw [Loop.eachSafe_list fun t ht => (hret t).mpr (hall t ht)]
    exact List.filterMap_congr fun t ht => (taskInfect_report t).2 (hall t ht)

/-- The list between two rounds: seized entries of the threads that are alive and
have been shown. -/
structure Between (state : Nat → TaskState) (threads : List ThreadS) (shown : Nat → Prop) :
    Prop where
  seized : ∀ t ∈ threads, t.seized = true
  pids : ∀ pid, (∃ t ∈ threads, t.pid = pid) ↔ state pid = .alive ∧ shown pid

/-- A reading that ends the loop: it shows a stopped thread, or it shows only
threads that are alive and known, and there is such a thread. -/
def Leaves (state : Nat → TaskState) (shown : Nat → Prop) (listing : List Nat) : Prop :=
  (∃ pid ∈ listing, state pid = .stopped) ∨
  ((∃ pid, state pid = .alive ∧ shown pid) ∧ ∀ pid ∈ listing, state pid = .alive ∧ shown pid)

section

variable {threads : List ThreadS} {shown : Nat → Prop} (h : Between state threads shown)
  (listing : List Nat)
include h

/-- The entries behind a reading. -/
theorem Between.collect_pids (pid : Nat) :
    (∃ t ∈ processCollectThreads threads listing, t.pid = pid) ∧ state pid = .alive ↔
      state pid = .alive ∧ (shown pid ∨ pid ∈ listing) := by
  obtain ⟨new, hnew, -, hall⟩ := processCollectThreads_eq_append listing threads
  constructor
  · rintro ⟨⟨t, ht, rfl⟩, halive⟩
    refine ⟨halive, ?_⟩
    rcases mem_processCollectThreads ht with hmem | hmem
    · exact .inl ((h.pids t.pid).mp ⟨t, hmem, rfl⟩).2
    · exact .inr hmem
  · rintro ⟨halive, hshown | hlisted⟩
    · obtain ⟨t, ht, hpid⟩ := (h.pids pid).mpr ⟨halive, hshown⟩
      exact ⟨⟨t, by rw [hnew]; exact List.mem_append_left _ ht, hpid⟩, halive⟩
    · exact ⟨hall pid hlisted, halive⟩

/-- A reading that adds nothing ends the loop. -/
theorem Between.leaves_of_not_needsSeize
    (hn : processNeedsSeize (processCollectThreads threads listing) = false) :
    Leaves state shown listing := by
  obtain ⟨new, hnew, hun, hall⟩ := processCollectThreads_eq_append listing threads
  rw [hnew] at hn hall
  have hnil := eq_nil_of_not_needsSeize hun hn
  rw [hnil, List.append_nil] at hn hall
  refine .inr ⟨?_, fun pid hpid => (h.pids pid).mp (hall pid hpid)⟩
  cases threads with
  | nil => cases hn
  | cons t l => exact ⟨t.pid, (h.pids t.pid).mp ⟨t, List.mem_cons_self .., rfl⟩⟩

/-- A reading that ends the loop without a stopped thread adds nothing. -/
theorem Between.not_needsSeize
    (hall : (∃ pid, state pid = .alive ∧ shown pid) ∧
      ∀ pid ∈ listing, state pid = .alive ∧ shown pid) :
    processNeedsSeize (processCollectThreads threads listing) = false := by
  obtain ⟨⟨pid, hpid⟩, hlisted⟩ := hall
  rw [processCollectThreads_of_known threads fun q hq => (h.pids q).mpr (hlisted q hq)]
  obtain ⟨t, ht, -⟩ := (h.pids pid).mpr hpid
  exact processNeedsSeize_of_seized (List.ne_nil_of_mem ht) h.seized

/-- A stopped thread in the list comes from the reading. -/
theorem Between.stopped_iff :
    (∀ t ∈ processCollectThreads threads listing, state t.pid ≠ .stopped) ↔
      ∀ pid ∈ listing, state pid ≠ .stopped := by
  obtain ⟨new, hnew, -, hall⟩ := processCollectThreads_eq_append listing threads
  constructor
  · intro hno pid hpid
    obtain ⟨t, ht, rfl⟩ := hall pid hpid
    exact hno t ht
  · intro hno t ht
    rcases mem_processCollectThreads ht with hmem | hmem
    · rw [((h.pids t.pid).mp ⟨t, hmem, rfl⟩).1]
      decide
    · exact hno t.pid hmem

/-- The list behind a round that goes on. -/
theorem Between.seizeAlive :
    Between state (seizeAlive state (processCollectThreads threads listing)) fun pid =>
      shown pid ∨ pid ∈ listing := by
  constructor
  · intro t ht
    obtain ⟨u, -, -, rfl⟩ := mem_seizeAlive_iff.mp ht
    rfl
  · intro pid
    rw [← h.collect_pids listing pid]
    constructor
    · rintro ⟨t, ht, rfl⟩
      obtain ⟨u, hmem, halive, rfl⟩ := mem_seizeAlive_iff.mp ht
      exact ⟨⟨u, hmem, rfl⟩, halive⟩
    · rintro ⟨⟨t, ht, rfl⟩, halive⟩
      exact ⟨{ t with seized := true }, mem_seizeAlive_iff.mpr ⟨t, ht, halive, rfl⟩, rfl⟩

/-- What a round does. -/
theorem infectRound_cases :
    (Leaves state shown listing ∧ ∃ ret, infectRound state threads listing = .left ret) ∨
    (¬ Leaves state shown listing ∧ ∃ threads',
      infectRound state threads listing = .goesOn threads' ∧
      Between state threads' fun pid => shown pid ∨ pid ∈ listing) := by
  rw [infectRound]
  dsimp only
  cases hn : processNeedsSeize (processCollectThreads threads listing) with
  | false => exact .inl ⟨h.leaves_of_not_needsSeize listing hn, _, if_pos rfl⟩
  | true =>
      rw [if_neg (by decide)]
      obtain ⟨hret, hlist⟩ := @processInfectThreads_eq state (processCollectThreads threads listing)
      by_cases hstop : ∀ pid ∈ listing, state pid ≠ .stopped
      · have hno := (h.stopped_iff listing).mpr hstop
        rw [if_neg (not_not_intro (hret.mpr hno)), hlist hno]
        refine .inr ⟨?_, _, rfl, h.seizeAlive listing⟩
        rintro (⟨pid, hpid, hs⟩ | hall)
        · exact hstop pid hpid hs
        · rw [h.not_needsSeize listing hall] at hn
          cases hn
      · rw [if_pos fun h0 => hstop ((h.stopped_iff listing).mp (hret.mp h0))]
        push Not at hstop
        exact .inl ⟨.inl hstop, _, rfl⟩

end

/-! ## The loop -/

/-- A thread that one of the first `n` readings shows. -/
def ShownBefore (listing : Nat → List Nat) (n : Nat) (pid : Nat) : Prop := ∃ m < n, pid ∈ listing m

theorem shownBefore_succ {listing : Nat → List Nat} {n pid : Nat} :
    ShownBefore listing (n + 1) pid ↔ ShownBefore listing n pid ∨ pid ∈ listing n := by
  simp only [ShownBefore, Nat.lt_succ_iff_lt_or_eq, or_and_right, exists_or, exists_eq_left]

/-- While the loop goes on, the list holds the threads that are alive and have
been shown. -/
theorem infectLoop_between {listing : Nat → List Nat} {n : Nat} {threads : List ThreadS}
    (h : infectLoop state listing n = .goesOn threads) :
    Between state threads (ShownBefore listing n) := by
  induction n generalizing threads with
  | zero =>
      cases h
      exact ⟨fun t ht => (nomatch ht), fun pid => by simp [ShownBefore]⟩
  | succ n induction =>
      rw [infectLoop] at h
      cases hprev : infectLoop state listing n with
      | left ret =>
          rw [hprev] at h
          cases h
      | goesOn threads₁ =>
          rw [hprev] at h
          rcases infectRound_cases (induction hprev) (listing n) with
            ⟨-, ret, hround⟩ | ⟨-, threads', hround, hb⟩
          · exact absurd (hround.symm.trans h) (by simp)
          · cases hround.symm.trans h
            exact ⟨hb.seized, fun pid => by rw [hb.pids pid, shownBefore_succ]⟩

/-- The loop of `process_infect` is left exactly when one of the readings ends
it. -/
theorem infectLoop_left_iff (state : Nat → TaskState) (listing : Nat → List Nat) :
    (∃ n ret, infectLoop state listing n = .left ret) ↔
      ∃ n, Leaves state (ShownBefore listing n) (listing n) := by
  constructor
  · rintro ⟨n, ret, hleft⟩
    induction n with
    | zero => cases hleft
    | succ n induction =>
        rw [infectLoop] at hleft
        cases hprev : infectLoop state listing n with
        | left ret' =>
            rw [hprev] at hleft
            exact induction (hprev.trans hleft)
        | goesOn threads =>
            rw [hprev] at hleft
            rcases infectRound_cases (infectLoop_between hprev) (listing n) with
              ⟨hl, -⟩ | ⟨-, threads', hround, -⟩
            · exact ⟨n, hl⟩
            · exact absurd (hround.symm.trans hleft) (by simp)
  · rintro ⟨n, hl⟩
    cases hprev : infectLoop state listing n with
    | left ret => exact ⟨n, ret, hprev⟩
    | goesOn threads =>
        rcases infectRound_cases (infectLoop_between hprev) (listing n) with
          ⟨-, ret, hround⟩ | ⟨hno, -⟩
        · exact ⟨n + 1, ret, by rw [infectLoop, hprev]; exact hround⟩
        · exact absurd hl hno

/-- The main thread has exited while the process has no other thread: the loop
collects it and destroys the entry again and again. -/
theorem zombie_never_left :
    ¬ ∃ n ret, infectLoop (fun _ => .zombie) (fun _ => [1]) n = .left ret := by
  have hloop (n : Nat) : infectLoop (fun _ => .zombie) (fun _ => [1]) n = .goesOn [] := by
    induction n with
    | zero => rfl
    | succ n induction =>
        rw [infectLoop, induction]
        rfl
  rintro ⟨n, ret, hleft⟩
  exact absurd ((hloop n).symm.trans hleft) (by simp)

end Nsb
