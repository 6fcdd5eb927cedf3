import Nsb.Service.NeededList
import Nsb.Service.Socket

/-!
# The conversation with the service

Calls on a socket without packets end as calls without a socket do.  `talk_direct`
says that a series of calls which ends at the first failure, as `patch_process`
makes it, is a series of direct calls and never waits for a response that nobody
sends.  `conversation_stays_stale` is about series that go on after failures: they
are direct as long as no call leaves a packet behind, and from then on no request
gets a response that depends on it.
-/

namespace Nsb

variable {σ F : Type}

/-! ## Calls on a socket without packets -/

/-- A call over the socket ends as the one without a socket does, and leaves the
socket without packets unless it failed. -/
inductive Follows {α : Type} (failed : α → Prop) :
    Except Stuck (Wire σ F × α) → Except Stuck (Serving σ × α) → Prop where
  | stuck (e : Stuck) : Follows failed (.error e) (.error e)
  | failed {w : Wire σ F} {a : α} : failed a → Follows failed (.ok (w, a)) (.ok (w.serving, a))
  | idle (s : Serving σ) (a : α) : Follows failed (.ok (Wire.idle s, a)) (.ok (s, a))

theorem Follows.map {α β : Type} {failed : α → Prop} {failed' : β → Prop} {f : α → β}
    {x : Except Stuck (Wire σ F × α)} {y : Except Stuck (Serving σ × α)} (h : Follows failed x y)
    (hf : ∀ a, failed a → failed' (f a)) :
    Follows failed' (x.map fun r => (r.1, f r.2)) (y.map fun r => (r.1, f r.2)) := by
  cases h with
  | stuck e => exact .stuck e
  | failed ha => exact .failed (hf _ ha)
  | idle s a => exact .idle s (f a)

section

variable {p : Peer σ F} {o : Outcome}

/-- The service's turn on the one packet in flight. -/
theorem serve_alone (pk : Packet F) (s : Serving σ) :
    Wire.serve p o { requests := [pk], responses := [], serving := s } =
      (p.run o (.message pk.bytes) s).map fun r =>
        ({ requests := [], responses := if 0 < o.reply then r.2.1.toList else []
           serving := r.1 }, r.2.2) := rfl

/-- A request on a socket without packets. -/
theorem request_follows (hrecv : 0 ≤ o.send → o.Strands → o.recvErr = none) (rq : List Byte)
    (s : Serving σ) :
    Follows Exchange.Failed (Wire.request p o rq (Wire.idle s)) (Direct.request p o rq s) := by
  rw [Wire.request, Direct.request]
  split
  · exact .idle s _
  next hsend =>
    have hfailed : ∀ run : Int, run < 0 →
        Exchange.Failed { send := o.send, run := run, recv := .error 0 } :=
      fun run hrun => .inr ⟨Int.not_lt.mp hsend, hrun⟩
    cases hexec : o.exec with
    | refused err neg =>
        simp only [Exec.apply, bind, Except.bind, Wire.idle, List.nil_append]
        rw [if_pos (Int.ne_of_lt neg), if_pos (Int.ne_of_lt neg)]
        exact .failed (hfailed err neg)
    | lost err neg =>
        simp only [Exec.apply, Wire.idle, List.nil_append, serve_alone, Direct.serve]
        cases p.run o (.message rq) s with
        | error e => exact .stuck e
        | ok r =>
            simp only [Except.map, bind, Except.bind]
            rw [if_pos (Int.ne_of_lt neg), if_pos (Int.ne_of_lt neg)]
            exact .failed (hfailed err neg)
    | ran =>
        simp only [Exec.apply, Wire.idle, List.nil_append, serve_alone, Direct.serve]
        cases hrun : p.run o (.message rq) s with
        | error e => exact .stuck e
        | ok r =>
            obtain ⟨s', response, ret⟩ := r
            simp only [Except.map, bind, Except.bind]
            rcases run_delivers hrun with ⟨hneg, -⟩ | ⟨rfl, hpos, rs, rfl, hone⟩
            · rw [if_pos (Int.ne_of_lt hneg), if_pos (Int.ne_of_lt hneg)]
              exact .failed (hfailed ret hneg)
            · have hnone : o.recvErr = none := by
                by_contra hsome
                exact hsome (hrecv (Int.not_lt.mp hsend) (.inr ⟨hpos, .inr hsome⟩))
              simp only [ne_eq, not_true_eq_false, if_false, hone, Wire.receive, hnone]
              exact .idle s' _

/-- A file passed on over a socket without packets. -/
theorem transferFd_follows (file : F) (s : Serving σ) :
    Follows (fun fd => fd < 0) (Wire.transferFd p o file (Wire.idle s))
      (Direct.transferFd p o file s) := by
  rw [Wire.transferFd, Direct.transferFd]
  split
  · exact .idle s _
  split
  · exact .idle s _
  have hcode : Wire.receiveFd p
      { requests := [⟨[120], some file⟩], responses := [], serving := s } =
      (Direct.receiveFd p file s).map fun r => (Wire.idle r.1, r.2) := by
    simp only [Wire.receiveFd, Direct.receiveFd, Option.bind_some]
    cases p.install file s.os <;> rfl
  cases hexec : o.exec with
  | refused err neg => exact .failed neg
  | lost err neg =>
      simp only [Exec.apply, Wire.idle, List.nil_append, hcode]
      cases Direct.receiveFd p file s with
      | error e => exact .stuck e
      | ok r => exact .idle r.1 err
  | ran =>
      simp only [Exec.apply, Wire.idle, List.nil_append, hcode]
      cases Direct.receiveFd p file s with
      | error e => exact .stuck e
      | ok r => exact .idle r.1 r.2

/-- A call on a socket without packets. -/
theorem call_follows {c : ServiceCall F} (hrecv : c.Leaves p o → o.recvErr = none)
    (s : Serving σ) :
    Follows (fun r => r.ret < 0) (Wire.call p o c (Wire.idle s)) (Direct.call p o c s) := by
  rw [Wire.call, Direct.call]
  rcases perform_forms p o c with
    ⟨err, -, -, hform⟩ | ⟨rq, reply, -, -, hleaves, hfail, hform⟩ | ⟨file, rfl⟩
  · rw [hform, hform]
    exact .idle s _
  · rw [hform, hform]
    exact (request_follows (fun hsend hstrand => hrecv (hleaves.mpr ⟨hsend, hstrand⟩)) rq s).map
      hfail
  · exact (transferFd_follows file s).map (f := fun fd => ({ ret := fd } : Reply)) fun _ h => h

theorem backlog_eq_zero {w : Wire σ F} : w.backlog = 0 ↔ w = Wire.idle w.serving := by
  obtain ⟨requests, responses, serving⟩ := w
  simp [Wire.backlog, Wire.idle]

/-- The service's turn on a command that is the one packet in flight. -/
theorem serve_command {rq : List Byte} {s : Serving σ} {w' : Wire σ F} {ret : Int}
    (hlen : 4 ≤ (received rq).length)
    (h : Wire.serve p o { requests := [⟨rq, none⟩], responses := [], serving := s } =
      .ok (w', ret)) :
    w'.requests = [] ∧ ((0 < o.reply ∧ ret = 0 ∧ ∃ rs, w'.responses = [rs]) ∨
      (¬ 0 < o.reply ∧ ret < 0 ∧ w'.responses = [])) := by
  rw [serve_alone, run_command hlen] at h
  obtain ⟨r, hrun, heq⟩ := comesBack_map.mp h
  cases heq
  split at hrun
  · cases hrun
  · cases hrun
    have := o.reply_ne
    refine ⟨rfl, ?_⟩
    by_cases hpos : 0 < o.reply
    · exact .inl ⟨hpos, if_neg (by omega), _, if_pos hpos⟩
    · have hneg : o.reply < 0 := by omega
      exact .inr ⟨hpos, (if_pos hneg).trans_lt hneg, if_neg hpos⟩

/-- A request on a socket without packets leaves one there when it strands. -/
theorem request_leaves {rq : List Byte} {s : Serving σ} {w' : Wire σ F} {ex : Exchange}
    (hlen : 4 ≤ (received rq).length) (h : Wire.request p o rq (Wire.idle s) = .ok (w', ex)) :
    w'.backlog = 0 ↔ ¬ (0 ≤ o.send ∧ o.Strands) := by
  rcases request_cases h with ⟨hsend, rfl, -⟩ | ⟨hsend, w₁, run, happly, hend⟩
  · exact ⟨fun _ h => absurd hsend (Int.not_lt.mpr h.1), fun _ => rfl⟩
  have hstays : run ≠ 0 → w' = w₁ := fun hrun =>
    (hend.resolve_right fun hzero => hrun hzero.1).2.1
  cases hexec : o.exec with
  | refused err neg =>
      rw [hexec] at happly
      cases happly
      rw [hstays (Int.ne_of_lt neg)]
      simp [Wire.backlog, Wire.idle, Outcome.Strands, Exec.IsRefused, hexec, hsend]
  | lost err neg =>
      rw [hexec] at happly
      obtain ⟨⟨w₂, ret⟩, hserve, heq⟩ := comesBack_map.mp happly
      cases heq
      rw [hstays (Int.ne_of_lt neg)]
      obtain ⟨hreq, ⟨hpos, -, rs, hres⟩ | ⟨hpos, -, hres⟩⟩ := serve_command hlen hserve
      · simp [Wire.backlog, hreq, hres, Outcome.Strands, Exec.IsLost, hexec, hsend, hpos]
      · simp [Wire.backlog, hreq, hres, Outcome.Strands, Exec.IsRefused, hexec, hpos]
  | ran =>
      rw [hexec] at happly
      obtain ⟨hreq, ⟨hpos, hzero, rs, hres⟩ | ⟨hpos, hneg, hres⟩⟩ := serve_command hlen happly
      · obtain ⟨-, recv, hreceive, -⟩ := hend.resolve_left fun hne => hne.1 hzero
        simp only [Wire.receive, hres] at hreceive
        cases hrecv : o.recvErr with
        | some errno =>
            rw [hrecv] at hreceive
            cases hreceive
            simp [Wire.backlog, hreq, hres, Outcome.Strands, hrecv, hsend, hpos]
        | none =>
            rw [hrecv] at hreceive
            cases hreceive
            simp [Wire.backlog, hreq, Outcome.Strands, Exec.IsRefused, Exec.IsLost, hrecv, hexec]
      · rw [hstays (Int.ne_of_lt hneg)]
        simp [Wire.backlog, hreq, hres, Outcome.Strands, Exec.IsRefused, hexec, hpos]

theorem transferFd_leaves {file : F} {s : Serving σ} {w' : Wire σ F} {fd : Int}
    (h : Wire.transferFd p o file (Wire.idle s) = .ok (w', fd)) :
    w'.backlog = 0 ↔ ¬ (0 ≤ o.send ∧ 0 < p.receiveFd ∧ o.exec.IsRefused) := by
  rw [Wire.transferFd] at h
  split at h
  next hsym =>
    cases h
    exact ⟨fun _ h => absurd hsym (Int.not_le.mpr h.2.1), fun _ => rfl⟩
  next hsym =>
    split at h
    next hsend =>
      cases h
      exact ⟨fun _ h => absurd hsend (Int.not_lt.mpr h.1), fun _ => rfl⟩
    next hsend =>
      have htaken : ∀ fd', Wire.receiveFd p
          { requests := [⟨[120], some file⟩], responses := [], serving := s } = .ok (w', fd') →
          w'.backlog = 0 := by
        intro fd' hreceive
        simp only [Wire.receiveFd] at hreceive
        split at hreceive
        · cases hreceive
        · cases hreceive
          rfl
      have hrest : 0 ≤ o.send ∧ 0 < p.receiveFd := ⟨Int.not_lt.mp hsend, Int.not_le.mp hsym⟩
      cases hexec : o.exec with
      | refused err neg =>
          rw [hexec] at h
          cases h
          simp [Wire.backlog, Wire.idle, Exec.IsRefused, hrest]
      | lost err neg =>
          rw [hexec] at h
          obtain ⟨⟨w₂, fd'⟩, hreceive, heq⟩ := comesBack_map.mp h
          cases heq
          simp [htaken fd' hreceive, Exec.IsRefused]
      | ran =>
          rw [hexec] at h
          simp [htaken fd h, Exec.IsRefused]

/-- When a call leaves a packet behind. -/
theorem call_leaves {c : ServiceCall F} {s : Serving σ} {w' : Wire σ F} {r : Reply}
    (h : Wire.call p o c (Wire.idle s) = .ok (w', r)) : w'.backlog = 0 ↔ ¬ c.Leaves p o := by
  rw [Wire.call] at h
  rcases perform_forms p o c with ⟨err, -, hleaves, hform⟩ |
    ⟨rq, reply, -, hlen, hleaves, -, hform⟩ | ⟨file, rfl⟩
  · rw [hform] at h
    cases h
    exact ⟨fun _ => hleaves, fun _ => rfl⟩
  · rw [hform] at h
    obtain ⟨⟨w₁, ex⟩, hreq, heq⟩ := comesBack_map.mp h
    cases heq
    rw [hleaves]
    exact request_leaves hlen hreq
  · obtain ⟨⟨w₁, fd⟩, htransfer, heq⟩ := comesBack_map.mp h
    cases heq
    exact transferFd_leaves htransfer

end

/-! ## Whole runs -/

section

variable {p : Peer σ F}

theorem map_stuck {α β : Type} {x : Except Stuck α} {f : α → β} {e : Stuck} :
    x.map f = .error e ↔ x = .error e := by
  cases x <;> simp [Except.map]

/-- Code that is run in the process is what does not come back. -/
theorem Exec.apply_stuck {α : Type} {e : Exec} {code : α → Except Stuck (α × Int)} {a : α}
    {stuck : Stuck} (h : e.apply code a = .error stuck) : code a = .error stuck := by
  cases e with
  | ran => exact h
  | refused err neg => cases h
  | lost err neg => exact map_stuck.mp h

/-- The service does not get to an answer to a request. -/
def Unanswered (p : Peer σ F) (o : Outcome) (rq : List Byte) (s : Serving σ) : Prop :=
  nsbDoHandleCmd p.host p.fuel (o.rq.put 0 (received rq)) ((received rq).length - 4)
    { s with rd := {} } = none

/-- Why a call does not come back: the service does not get to an answer to its
request, or the process has no free descriptor for its file. -/
def StuckAt (p : Peer σ F) (o : Outcome) (c : ServiceCall F) (s : Serving σ) (e : Stuck) : Prop :=
  (e = .noAnswer ∧ ∃ rq, c.message = some rq ∧ Unanswered p o rq s) ∨
    (e = .noHeader ∧ ∃ file, c = .transferFd file ∧ p.install file s.os = none)

theorem direct_request_stuck {o : Outcome} {rq : List Byte} {s : Serving σ} {e : Stuck}
    (hlen : 4 ≤ (received rq).length) (h : Direct.request p o rq s = .error e) :
    e = .noAnswer ∧ Unanswered p o rq s := by
  rw [Direct.request] at h
  split at h
  · cases h
  cases happly : o.exec.apply (Direct.serve p o rq) (s, none) with
  | error e' =>
      rw [happly] at h
      cases h
      have hserve : Direct.serve p o rq (s, none) = .error e := Exec.apply_stuck happly
      have hrun := map_stuck.mp hserve
      rw [run_command hlen] at hrun
      split at hrun
      next hnone =>
        cases hrun
        exact ⟨rfl, hnone⟩
      next => cases hrun
  | ok r =>
      simp only [happly, bind, Except.bind] at h
      split at h <;> cases h

theorem direct_transferFd_stuck {o : Outcome} {file : F} {s : Serving σ} {e : Stuck}
    (h : Direct.transferFd p o file s = .error e) :
    e = .noHeader ∧ p.install file s.os = none := by
  rw [Direct.transferFd] at h
  split at h
  · cases h
  split at h
  · cases h
  have hreceive := Exec.apply_stuck h
  rw [Direct.receiveFd] at hreceive
  split at hreceive
  next hnone =>
    cases hreceive
    exact ⟨rfl, hnone⟩
  next => cases hreceive

/-- Without a socket, a call comes back unless the service finds no answer or no
free descriptor. -/
theorem direct_stuck {o : Outcome} {c : ServiceCall F} {s : Serving σ} {e : Stuck}
    (h : Direct.call p o c s = .error e) : StuckAt p o c s e := by
  rw [Direct.call] at h
  rcases perform_forms p o c with ⟨err, -, -, hform⟩ | ⟨rq, reply, hmsg, hlen, -, -, hform⟩ |
    ⟨file, rfl⟩
  · rw [hform] at h
    cases h
  · rw [hform] at h
    obtain ⟨he, hnone⟩ := direct_request_stuck hlen (map_stuck.mp h)
    exact .inl ⟨he, rq, hmsg, hnone⟩
  · obtain ⟨he, hnone⟩ := direct_transferFd_stuck (map_stuck.mp h)
    exact .inr ⟨he, file, rfl, hnone⟩

/-- A step of a run on a socket without packets that leaves none. -/
theorem step_direct {w w' : Wire σ F} {l : Called F} (hidle : w.backlog = 0)
    (hstep : Wire.Step p w l w') (hleaves : ¬ l.call.Leaves p l.outcome) :
    Direct.Step p w.serving l w'.serving := by
  rw [backlog_eq_zero] at hidle
  rw [Wire.Step, hidle] at hstep
  have hfollows := call_follows (fun h => absurd h hleaves) w.serving
  rw [hstep] at hfollows
  rw [Direct.Step]
  generalize Direct.call p l.outcome l.call w.serving = result at hfollows ⊢
  cases hfollows with
  | failed _ => rfl
  | idle s a => rfl

/-- What holds after every run on a connection: no packet is in flight as long as
no call left one behind, and up to there the run is a run without a socket. -/
theorem run_inSync {s : Serving σ} {ls : List (Called F)} {w : Wire σ F}
    (hrun : Lts.Run (Wire.Step p) (Wire.idle s) ls w) :
    (w.backlog = 0 ↔ ∀ l ∈ ls, ¬ l.call.Leaves p l.outcome) ∧
      (w.backlog = 0 → Lts.Run (Direct.Step p) s ls w.serving) := by
  refine hrun.inv_labels (I := fun ls w => (w.backlog = 0 ↔ ∀ l ∈ ls, ¬ l.call.Leaves p l.outcome) ∧
    (w.backlog = 0 → Lts.Run (Direct.Step p) s ls w.serving)) ?_ ?_
  · rintro ls w l w' ⟨hiff, hdirect⟩ hstep
    have hmono : w.backlog ≤ w'.backlog := call_backlog hstep
    by_cases hidle : w.backlog = 0
    · have hidle' := hidle
      rw [backlog_eq_zero] at hidle'
      have hleft : w'.backlog = 0 ↔ ¬ l.call.Leaves p l.outcome := by
        rw [Wire.Step, hidle'] at hstep
        exact call_leaves hstep
      refine ⟨?_, fun hzero => (hdirect hidle).snoc (step_direct hidle hstep (hleft.mp hzero))⟩
      rw [hleft, List.forall_mem_append, List.forall_mem_singleton]
      exact ⟨fun h => ⟨hiff.mp hidle, h⟩, fun h => h.2⟩
    · have hidle' : w'.backlog ≠ 0 := by omega
      refine ⟨⟨fun h => absurd h hidle', fun h => ?_⟩, fun h => absurd h hidle'⟩
      exact absurd (hiff.mpr fun l hl => h l (List.mem_append_left _ hl)) hidle
  · exact ⟨by simp [Wire.backlog, Wire.idle], fun _ => .nil⟩

/-- On a connection, a run in which no call leaves a packet behind is a run of calls
that the service handles at once.  After a call that leaves one behind, what the
patcher receives for a request is the same whatever it asks for. -/
theorem conversation_stays_stale {s : Serving σ} {ls : List (Called F)} {w : Wire σ F}
    (hrun : Lts.Run (Wire.Step p) (Wire.idle s) ls w) :
    ((∀ l ∈ ls, ¬ l.call.Leaves p l.outcome) → Lts.Run (Direct.Step p) s ls w.serving) ∧
    ((∃ l ∈ ls, l.call.Leaves p l.outcome) → ∀ (o : Outcome) (rq rq' : List Byte)
      (w₁ w₂ : Wire σ F) (ex₁ ex₂ : Exchange), 4 ≤ (received rq).length →
      4 ≤ (received rq').length → w.request p o rq = .ok (w₁, ex₁) →
      w.request p o rq' = .ok (w₂, ex₂) → ex₁ = ex₂) := by
  obtain ⟨hiff, hdirect⟩ := run_inSync hrun
  refine ⟨fun hclean => hdirect (hiff.mpr hclean), ?_⟩
  rintro ⟨l, hl, hleaves⟩ o rq rq' w₁ w₂ ex₁ ex₂ hlen hlen' h₁ h₂
  have hback : w.backlog ≠ 0 := fun hzero => hiff.mp hzero l hl hleaves
  exact request_stale (Nat.pos_of_ne_zero hback) hlen hlen' h₁ h₂

/-- A dialogue that ends at the first call that fails. -/
theorem talk_follows {o : Nat → Outcome} (hrecv : ∀ n, (o n).recvErr = none) (d : Dialogue F)
    (n : Nat) (s : Serving σ) :
    (d.talk (fun n => Wire.call p (o n)) n (Wire.idle s)).map (fun r => (r.1.serving, r.2)) =
      d.talk (fun n => Direct.call p (o n)) n s := by
  induction d generalizing n s with
  | done => rfl
  | call c next induction =>
      have hfollows := call_follows (p := p) (c := c) (fun _ => hrecv n) s
      simp only [Dialogue.talk]
      generalize Wire.call p (o n) c (Wire.idle s) = result at hfollows ⊢
      generalize Direct.call p (o n) c s = result' at hfollows ⊢
      cases hfollows with
      | stuck e => rfl
      | failed hneg =>
          simp only [bind, Except.bind]
          rw [if_pos hneg, if_pos hneg]
          rfl
      | idle s' r =>
          simp only [bind, Except.bind]
          split
          · rfl
          · rw [← induction r (n + 1) s']
            cases (next r).talk (fun n => Wire.call p (o n)) (n + 1) (Wire.idle s') <;> rfl

/-- A dialogue without a socket gets to its call number `m`: the calls in front of
it come back and do not fail. -/
inductive Dialogue.Gets (p : Peer σ F) (o : Nat → Outcome) :
    Dialogue F → Nat → Serving σ → Nat → ServiceCall F → Serving σ → Prop where
  | here {c : ServiceCall F} {next : Reply → Dialogue F} {n : Nat} {s : Serving σ} :
      Gets p o (.call c next) n s n c s
  | later {c c' : ServiceCall F} {next : Reply → Dialogue F} {n m : Nat} {s s' s'' : Serving σ}
      {r : Reply} : Direct.call p (o n) c s = .ok (s', r) → ¬ r.ret < 0 →
      Gets p o (next r) (n + 1) s' m c' s'' → Gets p o (.call c next) n s m c' s''

/-- A dialogue that does not come back is stuck at one of its calls. -/
theorem direct_talk_stuck {o : Nat → Outcome} {d : Dialogue F} {n : Nat} {s : Serving σ} {e : Stuck}
    (h : d.talk (fun n => Direct.call p (o n)) n s = .error e) :
    ∃ m c s', d.Gets p o n s m c s' ∧ StuckAt p (o m) c s' e := by
  induction d generalizing n s with
  | done => cases h
  | call c next induction =>
      simp only [Dialogue.talk] at h
      cases hcall : Direct.call p (o n) c s with
      | error e' =>
          rw [hcall] at h
          cases h
          exact ⟨n, c, s, .here, direct_stuck hcall⟩
      | ok r =>
          simp only [hcall, bind, Except.bind] at h
          split at h
          · cases h
          next hret =>
            cases hnext : (next r.2).talk (fun n => Direct.call p (o n)) (n + 1) r.1 with
            | error e' =>
                rw [hnext] at h
                cases h
                obtain ⟨m, c', s', hgets, hstuck⟩ := induction _ hnext
                exact ⟨m, c', s', .later hcall hret hgets, hstuck⟩
            | ok r' =>
                rw [hnext] at h
                cases h

/-- Calls that end at the first one that fails, with no `recv` of the patcher that
fails, are handled by the service one by one, each with the response to its own
request.  The patcher never waits for a response that nobody sends: if the calls do
not come back, then at one of them the service finds no answer to its request or no
free descriptor for its file. -/
theorem talk_direct {o : Nat → Outcome} (hrecv : ∀ n, (o n).recvErr = none) (d : Dialogue F)
    (s : Serving σ) :
    (d.talk (fun n => Wire.call p (o n)) 0 (Wire.idle s)).map (fun r => (r.1.serving, r.2)) =
      d.talk (fun n => Direct.call p (o n)) 0 s ∧
    ∀ e, d.talk (fun n => Wire.call p (o n)) 0 (Wire.idle s) = .error e →
      ∃ n c s', d.Gets p o 0 s n c s' ∧ StuckAt p (o n) c s' e := by
  have hsame := talk_follows (p := p) hrecv d 0 s
  refine ⟨hsame, fun e herror => ?_⟩
  rw [herror] at hsame
  exact direct_talk_stuck hsame.symm

end

/-! ## A connection -/

/-- A process with two objects beside the service, in which every call succeeds. -/
def plainPeer : Peer (List Call) Unit :=
  { host := { kernel := recorder fun _ _ => 0, mem := objectMem 0x300, rMap := 0x100 }
    fuel := 6, receiveFd := 0x1000, install := fun _ os => some (os, 3) }

/-- An outcome without failures but for the code that is to run. -/
def plainOutcome (e : Exec) : Outcome :=
  { send := 4, exec := e, reply := 4, reply_ne := by decide, recvErr := none
    alloc := fun _ => true, rq := Buffer.zeros, rs := Buffer.zeros }

theorem patchDialogue_direct :
    let d : Dialogue Unit := patchDialogue (fun _ => some ((), twoSegments)) true
    (∀ n : Nat, ((fun _ => plainOutcome .ran) n).recvErr = none) ∧
    (d.talk (fun _ => Wire.call plainPeer (plainOutcome .ran)) 0 (Wire.idle { os := [] })).map
        (fun r => (r.1.serving, r.2)) =
      d.talk (fun _ => Direct.call plainPeer (plainOutcome .ran)) 0 { os := [] } ∧
    ∀ e, d.talk (fun _ => Wire.call plainPeer (plainOutcome .ran)) 0 (Wire.idle { os := [] }) =
        .error e →
      ∃ n c s', d.Gets plainPeer (fun _ => plainOutcome .ran) 0 { os := [] } n c s' ∧
        StuckAt plainPeer (plainOutcome .ran) c s' e :=
  ⟨fun _ => rfl, talk_direct (fun _ => rfl) _ _⟩

/-- The process could not be run for the first request. -/
def strandedCall : Called Unit :=
  { call := .neededArray, outcome := plainOutcome (.refused (-EFAULT) (by decide))
    reply := { ret := -EFAULT } }

theorem stranded_stays_stale :
    let w : Wire (List Call) Unit :=
      { requests := [⟨neededRequest, none⟩], responses := [], serving := { os := [] } }
    Lts.Run (Wire.Step plainPeer) (Wire.idle { os := [] }) [strandedCall] w ∧
    strandedCall.call.Leaves plainPeer strandedCall.outcome ∧
    ∀ (o : Outcome) (rq rq' : List Byte) (w₁ w₂ : Wire (List Call) Unit) (ex₁ ex₂ : Exchange),
      4 ≤ (received rq).length → 4 ≤ (received rq').length →
      w.request plainPeer o rq = .ok (w₁, ex₁) → w.request plainPeer o rq' = .ok (w₂, ex₂) →
      ex₁ = ex₂ := by
  have hstep : Wire.Step plainPeer (Wire.idle { os := [] }) strandedCall
      { requests := [⟨neededRequest, none⟩], responses := [], serving := { os := [] } } := rfl
  have hleaves : strandedCall.call.Leaves plainPeer strandedCall.outcome :=
    ⟨by decide, .inl trivial⟩
  have hrun : Lts.Run (Wire.Step plainPeer) (Wire.idle { os := [] }) [strandedCall] _ :=
    Lts.Run.snoc .nil hstep
  exact ⟨hrun, hleaves, (conversation_stays_stale hrun).2 ⟨_, List.mem_singleton.mpr rfl, hleaves⟩⟩

end Nsb
