import Mathlib.Data.Finset.Insert
import Nsb.Lib.Run
import Nsb.Patcher.Types

/-!
# Seizing the threads of a process

`process_infect` of `patcher/process.c` against a process whose threads clone
and exit on their own.  nsb alternates between reading `/proc/PID/task` and
seizing every thread of its list, until a reading adds no thread.

The functions of the source are `collectThread`, `taskInfect` and
`processNeedsSeize`.  The loop is a machine: `Pc` says where `process_infect`
stands and holds `ctx->threads`, and `Step` has a rule for each call that the
process can be interleaved with.  These are one reading of the directory, which
is an atomic snapshot, one `compel_stop_task` and one `compel_resume_task`.

The kernel side is three sets of thread ids.  A live thread that is not stopped
may clone a thread with an id never used before, and may exit.  A stopped thread
does neither.
-/

namespace Nsb

/-- `struct thread_s`. -/
structure ThreadS where
  pid : Nat
  seized : Bool := false
deriving DecidableEq, Repr

/-- What `compel_stop_task` returns.  `fail` is any other value, with `errno`
set to a positive number. -/
inductive StopResult where
  | alive
  | stopped
  | zombie
  | dead
  | fail (errno : Nat)
deriving DecidableEq, Repr

/-- `task_infect`: the entry afterwards, `none` if it was destroyed, and the
return code.  `errno` is compared with `-ESRCH`, which it never is. -/
def taskInfect (t : ThreadS) : StopResult → Option ThreadS × Int
  | .alive => (some { t with seized := true }, 0)
  | .stopped => (some t, -EBUSY)
  | .zombie => (none, 0)
  | .dead => (none, 0)
  | .fail errno => if (errno : Int) ≠ -ESRCH then (some t, -errno) else (none, 0)

/-- `collect_thread`. -/
def collectThread (threads : List ThreadS) (pid : Nat) : List ThreadS :=
  if threads.any (fun t => t.pid == pid) then threads else threads ++ [{ pid := pid }]

/-- `process_collect_threads` on the entries of the directory. -/
def processCollectThreads (threads : List ThreadS) (listing : List Nat) : List ThreadS :=
  listing.foldl collectThread threads

/-- `process_needs_seize`: it looks at the last list element only. -/
def processNeedsSeize (threads : List ThreadS) : Bool :=
  match threads.getLast? with
  | none => true
  | some t => !t.seized

/-- Where `process_infect` stands: in front of a reading of the directory, in
`process_infect_threads` with the entries done and to do, in
`process_cure_threads` on the error path, or returned. -/
inductive Pc where
  | collect (threads : List ThreadS)
  | seize (done todo : List ThreadS)
  | cure (err : Int) (threads : List ThreadS)
  | exit (ret : Int) (threads : List ThreadS)

/-- `ctx->threads`. -/
def Pc.threads : Pc → List ThreadS
  | .collect threads => threads
  | .seize done todo => done ++ todo
  | .cure _ threads => threads
  | .exit _ threads => threads

/-- The body of the loop behind `process_collect_threads`. -/
def Pc.afterCollect (threads : List ThreadS) : Pc :=
  if processNeedsSeize threads then .seize [] threads
  else if threads.isEmpty then .exit (-ESRCH) threads
  else .exit 0 threads

/-- The body of the loop of `process_infect_threads` behind `compel_stop_task`. -/
def Pc.afterStop (done todo : List ThreadS) : Option ThreadS × Int → Pc
  | (t, err) =>
      if err = 0 then .seize (done ++ t.toList) todo
      else .cure err (done ++ t.toList ++ todo)

/-- The process and nsb. -/
structure InfectSys where
  /-- The live threads of the process. -/
  live : Finset Nat
  /-- The thread ids used so far. -/
  born : Finset Nat
  /-- The threads that are seized and stopped. -/
  stopped : Finset Nat
  pc : Pc

inductive InfectLabel where
  | clone (parent child : Nat)
  | die (tid : Nat)
  | collect (listing : List Nat)
  | collectFail (listing : List Nat) (err : Int)
  | stop (t : ThreadS) (r : StopResult)
  | round
  | resume (t : ThreadS) (ok : Bool)
  | cured

/-- What `compel_stop_task` may return for a thread, and the stopped threads
then.  `ALIVE` and `STOPPED` leave the thread seized and stopped; the second one
is for a thread that a signal had stopped before.  `ZOMBIE` and `DEAD` are for
threads that are not live, a failure sets `errno`. -/
inductive Stops (s : InfectSys) (tid : Nat) : StopResult → Finset Nat → Prop where
  | alive : Stops s tid .alive (insert tid s.stopped)
  | stopped : Stops s tid .stopped (insert tid s.stopped)
  | zombie : tid ∉ s.live → Stops s tid .zombie s.stopped
  | dead : tid ∉ s.live → Stops s tid .dead s.stopped
  | fail {errno : Nat} : errno ≠ 0 → Stops s tid (.fail errno) s.stopped

/-- One step of the process or of `process_infect`. -/
inductive InfectStep : InfectSys → InfectLabel → InfectSys → Prop where
  | clone {s : InfectSys} {parent child : Nat} :
      parent ∈ s.live → parent ∉ s.stopped → child ∉ s.born →
      InfectStep s (.clone parent child)
        { s with live := insert child s.live, born := insert child s.born }
  | die {s : InfectSys} {tid : Nat} :
      tid ∈ s.live → tid ∉ s.stopped →
      InfectStep s (.die tid) { s with live := s.live.erase tid }
  /-- The snapshot shows every live thread.  It may show others, such as a
      zombie. -/
  | collect {s : InfectSys} {threads : List ThreadS} {listing : List Nat} :
      s.pc = .collect threads → (∀ tid ∈ s.live, tid ∈ listing) →
      InfectStep s (.collect listing)
        { s with pc := .afterCollect (processCollectThreads threads listing) }
  /-- The directory cannot be read to its end, or there is no memory for an
      entry. -/
  | collectFail {s : InfectSys} {threads : List ThreadS} {listing : List Nat} {err : Int} :
      s.pc = .collect threads → err ≠ 0 →
      InfectStep s (.collectFail listing err)
        { s with pc := .cure err (processCollectThreads threads listing) }
  | stop {s : InfectSys} {done todo : List ThreadS} {t : ThreadS} {r : StopResult}
      {stopped : Finset Nat} :
      s.pc = .seize done (t :: todo) → Stops s t.pid r stopped →
      InfectStep s (.stop t r)
        { s with stopped := stopped, pc := .afterStop done todo (taskInfect t r) }
  | round {s : InfectSys} {done : List ThreadS} :
      s.pc = .seize done [] → InfectStep s .round { s with pc := .collect done }
  | resume {s : InfectSys} {err : Int} {todo : List ThreadS} {t : ThreadS} {ok : Bool} :
      s.pc = .cure err (t :: todo) →
      InfectStep s (.resume t ok)
        (if !t.seized then { s with pc := .cure err todo }
         else if ok then { s with stopped := s.stopped.erase t.pid, pc := .cure err todo }
         else { s with pc := .exit err (t :: todo) })
  | cured {s : InfectSys} {err : Int} :
      s.pc = .cure err [] → InfectStep s .cured { s with pc := .exit err [] }

/-- The state in which `process_infect` is called: `ctx->threads` is empty and
no thread is stopped. -/
structure InfectInit (s : InfectSys) : Prop where
  pc : s.pc = .collect []
  stopped : s.stopped = ∅
  born : s.live ⊆ s.born

end Nsb
