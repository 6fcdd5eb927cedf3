import Nsb.Lib.Run
import Nsb.Service.Load

/-!
# The socket between patcher and service

The patcher and the service talk over one connected socket that keeps packets
apart and in order.  The process is stopped, so its code runs only while
`process_exec_code` has it run: a request is sent, `nsb_service_run_loop` is run
for one turn, and the response is received.  A file is passed on over the same
socket by `send_fd` and `recv_fd`.

`Wire` is the process with the packets in flight, and an `Outcome` says how the
parts of a call go that neither program decides.  When the process is not run, or
its registers cannot be read afterwards, a packet stays behind, and nothing in the
packets says which request a response belongs to.  No call takes more packets than
it sends (`call_backlog`), and with packets in flight no request changes what is
received for it (`request_stale`).

`Direct` is what a call is meant to be: the service handles the request of this
very call.
-/

namespace Nsb

/-! ## Packets and outcomes -/

/-- A packet: its bytes, and the file that `send_fd` passes on with them. -/
structure Packet (F : Type) where
  bytes : List Byte
  file : Option F := none

/-- How a call may not come back: the patcher waits for a packet, `recv_fd` reads
the descriptor through the null pointer it has for a packet without one, the
service does not get to an answer, or it leaves through `emergency_sigreturn`. -/
inductive Stuck where
  | waits
  | noHeader
  | noAnswer
  | sigreturn
deriving DecidableEq

/-- How `process_exec_code` goes: the code runs to its end, it does not run, or it
runs and `compel_run_at` fails after that. -/
inductive Exec where
  | ran
  | refused (err : Int) (neg : err < 0)
  | lost (err : Int) (neg : err < 0)

/-- What the kernel decides in a call.  `send` is the result of the first `send` or
`sendmsg`, `reply` that of the `send` in the service, which is not empty, `recvErr`
the `errno` of a `recv` of the patcher that fails.  `rq` and `rs` are what the
buffers of the service and of the patcher hold before. -/
structure Outcome where
  send : Int
  exec : Exec
  reply : Int
  reply_ne : reply ≠ 0
  recvErr : Option Nat
  alloc : Nat → Bool
  rq : Buffer
  rs : Buffer

/-- The process that the service runs in.  `receiveFd` is the value of the symbol
`nsb_service_receive_fd`, `install` puts a file under a free descriptor. -/
structure Peer (σ F : Type) where
  host : Host σ
  fuel : Nat
  receiveFd : Int
  install : F → σ → Option (σ × Nat)

/-- The two directions of the socket, the packet sent first in front, and the
process. -/
structure Wire (σ F : Type) where
  requests : List (Packet F)
  responses : List (List Byte)
  serving : Serving σ

variable {σ F : Type}

/-- A socket without packets. -/
def Wire.idle (s : Serving σ) : Wire σ F := { requests := [], responses := [], serving := s }

/-- The number of packets in flight. -/
def Wire.backlog (w : Wire σ F) : Nat := w.requests.length + w.responses.length

/-- `process_exec_code`. -/
def Exec.apply {α : Type} (e : Exec) (code : α → Except Stuck (α × Int)) (a : α) :
    Except Stuck (α × Int) :=
  match e with
  | .ran => code a
  | .refused err _ => .ok (a, err)
  | .lost err _ => (code a).map fun r => (r.1, err)

/-! ## Calls over the socket -/

variable (p : Peer σ F)

/-- `nsb_service_run` on a packet of the queue, with the state after it, the
response and the return value. -/
def Peer.run (o : Outcome) (recv : Recv) (s : Serving σ) :
    Except Stuck (Serving σ × Option (List Byte) × Int) :=
  match nsbServiceRun p.host p.fuel recv o.reply o.rq s with
  | none => .error .noAnswer
  | some run =>
      match run.ret with
      | none => .error .sigreturn
      | some ret => .ok (run.serving, run.response, ret)

/-- `nsb_service_run_loop` for one turn that does not wait. -/
def Wire.serve (o : Outcome) (w : Wire σ F) : Except Stuck (Wire σ F × Int) :=
  let recv : Recv :=
    match w.requests with
    | [] => .error EAGAIN.toNat
    | pk :: _ => .message pk.bytes
  (p.run o recv w.serving).map fun (s, response, ret) =>
    ({ requests := w.requests.tail
       responses := w.responses ++ if 0 < o.reply then response.toList else []
       serving := s }, ret)

/-- `nsb_service_receive_fd`, for a connected socket. -/
def Wire.receiveFd (w : Wire σ F) : Except Stuck (Wire σ F × Int) :=
  match w.requests with
  | [] => .error .waits
  | pk :: rest =>
      match pk.file.bind fun file => p.install file w.serving.os with
      | none => .error .noHeader
      | some (os, fd) =>
          .ok ({ w with requests := rest, serving := { w.serving with os := os } }, fd)

/-- `recv` of the patcher, which waits. -/
def Wire.receive (o : Outcome) (w : Wire σ F) : Except Stuck (Wire σ F × Recv) :=
  match o.recvErr with
  | some errno => .ok (w, .error errno)
  | none =>
      match w.responses with
      | [] => .error .waits
      | rs :: rest => .ok ({ w with responses := rest }, .message rs)

/-- The steps of a call that sends a request. -/
def Wire.request (o : Outcome) (rq : List Byte) (w : Wire σ F) :
    Except Stuck (Wire σ F × Exchange) :=
  if o.send < 0 then .ok (w, { send := o.send, run := 0, recv := .error 0 })
  else do
    let (w, run) ← o.exec.apply (Wire.serve p o) { w with requests := w.requests ++ [⟨rq, none⟩] }
    if run ≠ 0 then .ok (w, { send := o.send, run := run, recv := .error 0 })
    else
      let (w, recv) ← w.receive o
      .ok (w, { send := o.send, run := 0, recv := recv })

/-- `service_transfer_fd`. -/
def Wire.transferFd (o : Outcome) (file : F) (w : Wire σ F) : Except Stuck (Wire σ F × Int) :=
  if p.receiveFd ≤ 0 then .ok (w, p.receiveFd)
  else if o.send < 0 then .ok (w, o.send)
  else
    o.exec.apply (Wire.receiveFd p) { w with requests := w.requests ++ [⟨[120], some file⟩] }

/-- A call of the patcher. -/
inductive ServiceCall (F : Type) where
  | mmapDlm (dlm : DlMap) (fd : BitVec 32)
  | munmapDlm (dlm : DlMap)
  | neededArray
  | transferFd (file : F)

/-- The request of a call, when it fits and is no file. -/
def ServiceCall.message : ServiceCall F → Option (List Byte)
  | .mmapDlm dlm fd => (mmapRequest dlm fd).toOption
  | .munmapDlm dlm => (munmapRequest dlm).toOption
  | .neededArray => some neededRequest
  | .transferFd _ => none

/-- What a call returns. -/
structure Reply where
  ret : Int
  array : Option (List (BitVec 64)) := none

/-- `service_mmap_dlm`, `service_munmap_dlm`, `service_needed_array` and
`service_transfer_fd`, over a way to do the steps of a request and to pass on a
file. -/
def ServiceCall.perform {α : Type} (request : List Byte → α → Except Stuck (α × Exchange))
    (transfer : F → α → Except Stuck (α × Int)) (o : Outcome) :
    ServiceCall F → α → Except Stuck (α × Reply)
  | .mmapDlm dlm fd, a =>
      match mmapRequest dlm fd with
      | .error err => .ok (a, { ret := err })
      | .ok rq => (request rq a).map fun (a, ex) =>
          (a, { ret := Client.serviceMmapDlm (fun _ => ex) dlm fd o.rs })
  | .munmapDlm dlm, a =>
      match munmapRequest dlm with
      | .error err => .ok (a, { ret := err })
      | .ok rq => (request rq a).map fun (a, ex) =>
          (a, { ret := Client.serviceMunmapDlm (fun _ => ex) dlm o.rs })
  | .neededArray, a => (request neededRequest a).map fun (a, ex) =>
      (a, { ret := (serviceNeededArray (fun _ => ex) o.alloc o.rs).1
            array := (serviceNeededArray (fun _ => ex) o.alloc o.rs).2 })
  | .transferFd file, a => (transfer file a).map fun (a, fd) => (a, { ret := fd })

/-- A call over the socket. -/
def Wire.call (o : Outcome) (c : ServiceCall F) (w : Wire σ F) : Except Stuck (Wire σ F × Reply) :=
  c.perform (Wire.request p o) (Wire.transferFd p o) o w

/-! ## Calls without a socket -/

/-- `nsb_service_run` on the request of the call. -/
def Direct.serve (o : Outcome) (rq : List Byte) (s : Serving σ × Option (List Byte)) :
    Except Stuck ((Serving σ × Option (List Byte)) × Int) :=
  (p.run o (.message rq) s.1).map fun (s, response, ret) => ((s, response), ret)

/-- A request that the service handles at once. -/
def Direct.request (o : Outcome) (rq : List Byte) (s : Serving σ) :
    Except Stuck (Serving σ × Exchange) :=
  if o.send < 0 then .ok (s, { send := o.send, run := 0, recv := .error 0 })
  else do
    let ((s, response), run) ← o.exec.apply (Direct.serve p o rq) (s, none)
    if run ≠ 0 then .ok (s, { send := o.send, run := run, recv := .error 0 })
    else .ok (s, { send := o.send, run := 0, recv := .message (response.getD []) })

/-- The file is put under a descriptor of the process. -/
def Direct.receiveFd (file : F) (s : Serving σ) : Except Stuck (Serving σ × Int) :=
  match p.install file s.os with
  | none => .error .noHeader
  | some (os, fd) => .ok ({ s with os := os }, fd)

/-- A file that is passed on at once. -/
def Direct.transferFd (o : Outcome) (file : F) (s : Serving σ) : Except Stuck (Serving σ × Int) :=
  if p.receiveFd ≤ 0 then .ok (s, p.receiveFd)
  else if o.send < 0 then .ok (s, o.send)
  else o.exec.apply (Direct.receiveFd p file) s

/-- A call without a socket. -/
def Direct.call (o : Outcome) (c : ServiceCall F) (s : Serving σ) :
    Except Stuck (Serving σ × Reply) :=
  c.perform (Direct.request p o) (Direct.transferFd p o) o s

/-! ## Packets that are left behind -/

/-- The code was not run. -/
def Exec.IsRefused : Exec → Prop
  | .refused _ _ => True
  | _ => False

/-- The code was run to no avail. -/
def Exec.IsLost : Exec → Prop
  | .lost _ _ => True
  | _ => False

/-- A request that was sent, or the response to it, is not received. -/
def Outcome.Strands (o : Outcome) : Prop :=
  o.exec.IsRefused ∨ (0 < o.reply ∧ (o.exec.IsLost ∨ o.recvErr ≠ none))

/-- A call leaves a packet behind on a socket without packets. -/
def ServiceCall.Leaves (o : Outcome) : ServiceCall F → Prop
  | .mmapDlm dlm _ => 0 ≤ o.send ∧ dlm.vmas.length ≤ maxMmaps ∧ o.Strands
  | .munmapDlm dlm => 0 ≤ o.send ∧ dlm.vmas.length ≤ maxMunmaps ∧ o.Strands
  | .neededArray => 0 ≤ o.send ∧ o.Strands
  | .transferFd _ => 0 ≤ o.send ∧ 0 < p.receiveFd ∧ o.exec.IsRefused

/-- One call of a run, with its outcome and its reply. -/
structure Called (F : Type) where
  call : ServiceCall F
  outcome : Outcome
  reply : Reply

/-- A call over the socket that comes back. -/
def Wire.Step (w : Wire σ F) (l : Called F) (w' : Wire σ F) : Prop :=
  w.call p l.outcome l.call = .ok (w', l.reply)

/-- A call without a socket that comes back. -/
def Direct.Step (s : Serving σ) (l : Called F) (s' : Serving σ) : Prop :=
  Direct.call p l.outcome l.call s = .ok (s', l.reply)

/-! ## Series of calls -/

/-- What the patcher does with the service: a call, and what comes after it when
it does not fail. -/
inductive Dialogue (F : Type) where
  | done
  | call (c : ServiceCall F) (next : Reply → Dialogue F)

/-- The calls of a dialogue up to the first one that fails, with their replies.
The calls are numbered from `n`. -/
def Dialogue.talk {α : Type} (call : Nat → ServiceCall F → α → Except Stuck (α × Reply)) :
    Dialogue F → Nat → α → Except Stuck (α × List Reply)
  | .done, _, a => .ok (a, [])
  | .call c next, n, a => do
      let (a, r) ← call n c a
      if r.ret < 0 then .ok (a, [r])
      else
        let (a, rs) ← (next r).talk call (n + 1) a
        .ok (a, r :: rs)

/-- The calls of `patch_process` with the service.  `load` is the object to map,
when the steps up to `load_patch` succeed, `fails` says that a step after it does
not. -/
def patchDialogue (load : Reply → Option (F × DlMap)) (fails : Bool) : Dialogue F :=
  .call .neededArray fun needed =>
    match load needed with
    | none => .done
    | some (file, dlm) =>
        .call (.transferFd file) fun fd =>
          .call (.mmapDlm dlm (BitVec.ofInt 32 fd.ret)) fun _ =>
            if fails then .call (.munmapDlm dlm) fun _ => .done else .done

/-! ## The service's turn -/

section

variable {p : Peer σ F} {o : Outcome} {bytes : List Byte} {s s' : Serving σ}
  {response : Option (List Byte)} {ret : Int}

theorem run_empty (hlen : (received bytes).length = 0) :
    p.run o (.message bytes) s = .error .sigreturn := by
  simp [Peer.run, nsbServiceRun, nsbServiceReceiveRequest, hlen]

theorem run_short (hpos : (received bytes).length ≠ 0) (hlen : (received bytes).length < 4) :
    p.run o (.message bytes) s = .ok (s, none, -EINVAL) := by
  simp [Peer.run, nsbServiceRun, nsbServiceReceiveRequest, hpos, hlen, EINVAL, EAGAIN]

/-- A packet with a command in it gets to the handler. -/
theorem run_command (hlen : 4 ≤ (received bytes).length) :
    p.run o (.message bytes) s =
      match nsbDoHandleCmd p.host p.fuel (o.rq.put 0 (received bytes))
        ((received bytes).length - 4) { s with rd := {} } with
      | none => .error .noAnswer
      | some r =>
          .ok (r.1, some (responseBytes r.2 r.1.rd), if o.reply < 0 then o.reply else 0) := by
  rw [Peer.run, nsbServiceRun_message _ hlen, nsbHandleCommand]
  cases nsbDoHandleCmd p.host p.fuel (o.rq.put 0 (received bytes))
    ((received bytes).length - 4) { s with rd := {} } with
  | none => rfl
  | some r =>
      by_cases hneg : o.reply < 0
      · simp [hneg]
      · simp [hneg, o.reply_ne]

/-- On a packet, the service returns an error and no response arrives, or it
returns zero and one does. -/
theorem run_message (h : p.run o (.message bytes) s = .ok (s', response, ret)) :
    (ret < 0 ∧ (0 < o.reply → response = none)) ∨
      (ret = 0 ∧ 0 < o.reply ∧ ∃ rs, response = some rs) := by
  by_cases hempty : (received bytes).length = 0
  · rw [run_empty hempty] at h
    cases h
  by_cases hshort : (received bytes).length < 4
  · rw [run_short hempty hshort] at h
    cases h
    exact .inl ⟨by simp [EINVAL], fun _ => rfl⟩
  rw [run_command (Nat.not_lt.mp hshort)] at h
  split at h
  · cases h
  · next r _ =>
      cases h
      by_cases hneg : o.reply < 0
      · rw [if_pos hneg]
        exact .inl ⟨hneg, fun hpos => absurd hneg (Int.not_lt.mpr (Int.le_of_lt hpos))⟩
      · rw [if_neg hneg]
        exact .inr ⟨rfl, by have := o.reply_ne; omega, _, rfl⟩

/-- What the patcher gets of a response. -/
theorem run_delivers (h : p.run o (.message bytes) s = .ok (s', response, ret)) :
    (ret < 0 ∧ (if 0 < o.reply then response.toList else []) = []) ∨
      (ret = 0 ∧ 0 < o.reply ∧ ∃ rs, response = some rs ∧
        (if 0 < o.reply then response.toList else []) = [rs]) := by
  rcases run_message h with ⟨hneg, hnone⟩ | ⟨hzero, hpos, rs, hsome⟩
  · refine .inl ⟨hneg, ?_⟩
    split
    next hpos => rw [hnone hpos]; rfl
    next => rfl
  · refine .inr ⟨hzero, hpos, rs, hsome, ?_⟩
    rw [if_pos hpos, hsome]
    rfl

end

/-- What a turn of the service does to the packets in flight. -/
theorem serve_packets {p : Peer σ F} {o : Outcome} {w w' : Wire σ F} {pk : Packet F}
    {rest : List (Packet F)} {ret : Int} (hpk : w.requests = pk :: rest)
    (h : w.serve p o = .ok (w', ret)) :
    w'.requests = rest ∧ ((ret < 0 ∧ w'.responses = w.responses) ∨
      (ret = 0 ∧ ∃ rs, w'.responses = w.responses ++ [rs])) := by
  simp only [Wire.serve, hpk] at h
  cases hrun : p.run o (.message pk.bytes) w.serving with
  | error e =>
      rw [hrun] at h
      cases h
  | ok r =>
      rw [hrun] at h
      cases h
      refine ⟨rfl, ?_⟩
      rcases run_delivers hrun with ⟨hneg, hnil⟩ | ⟨hzero, -, rs, -, hone⟩
      · exact .inl ⟨hneg, by rw [hnil, List.append_nil]⟩
      · exact .inr ⟨hzero, rs, by rw [hone]⟩

/-! ## Packets that stay behind -/

/-- Two steps in a row come back when both do. -/
theorem comesBack_bind {α β : Type} {x : Except Stuck α} {f : α → Except Stuck β} {b : β} :
    x >>= f = .ok b ↔ ∃ a, x = .ok a ∧ f a = .ok b := by
  cases x <;> simp [bind, Except.bind]

theorem comesBack_map {α β : Type} {x : Except Stuck α} {f : α → β} {b : β} :
    x.map f = .ok b ↔ ∃ a, x = .ok a ∧ f a = b := by
  cases x <;> simp [Except.map]

/-- How running code in the process may end. -/
theorem Exec.apply_cases {α : Type} {e : Exec} {code : α → Except Stuck (α × Int)} {a a' : α}
    {ret : Int} (h : e.apply code a = .ok (a', ret)) :
    (a' = a ∧ ret < 0 ∧ ∃ err neg, e = .refused err neg) ∨
      (e = .ran ∧ code a = .ok (a', ret)) ∨
      (ret < 0 ∧ (∃ err neg, e = .lost err neg) ∧ ∃ r, code a = .ok (a', r)) := by
  cases e with
  | ran => exact .inr (.inl ⟨rfl, h⟩)
  | refused err neg =>
      simp only [Exec.apply, Except.ok.injEq, Prod.mk.injEq] at h
      exact .inl ⟨h.1.symm, h.2 ▸ neg, err, neg, rfl⟩
  | lost err neg =>
      simp only [Exec.apply] at h
      cases hcode : code a with
      | error e =>
          rw [hcode] at h
          cases h
      | ok r =>
          simp only [hcode, Except.map, Except.ok.injEq, Prod.mk.injEq] at h
          exact .inr (.inr ⟨h.2 ▸ neg, ⟨err, neg, rfl⟩, r.2, by rw [← h.1]⟩)

section

variable {p : Peer σ F} {o : Outcome} {w w' : Wire σ F}

/-- The packet that is taken when another one is sent. -/
theorem exists_front (l : List (Packet F)) (pk : Packet F) :
    ∃ front rest, l ++ [pk] = front :: rest ∧ rest.length = l.length := by
  cases l with
  | nil => exact ⟨pk, [], rfl, rfl⟩
  | cons front l => exact ⟨front, l ++ [pk], rfl, by simp⟩

theorem receive_backlog {recv : Recv} (h : w.receive o = .ok (w', recv)) :
    w.backlog ≤ w'.backlog + 1 ∧ w'.requests = w.requests := by
  simp only [Wire.receive] at h
  split at h
  · cases h
    exact ⟨Nat.le_succ _, rfl⟩
  · split at h
    · cases h
    next rs rest heq =>
      cases h
      simp only [Wire.backlog, heq, List.length_cons, and_true]
      omega

/-- The ways in which the steps of a request end. -/
theorem request_cases {rq : List Byte} {ex : Exchange} (h : w.request p o rq = .ok (w', ex)) :
    (o.send < 0 ∧ w' = w ∧ ex = { send := o.send, run := 0, recv := .error 0 }) ∨
    (0 ≤ o.send ∧ ∃ w₁ run,
      o.exec.apply (Wire.serve p o) { w with requests := w.requests ++ [⟨rq, none⟩] } =
        .ok (w₁, run) ∧
      ((run ≠ 0 ∧ w' = w₁ ∧ ex = { send := o.send, run := run, recv := .error 0 }) ∨
        (run = 0 ∧ ∃ recv, w₁.receive o = .ok (w', recv) ∧
          ex = { send := o.send, run := 0, recv := recv }))) := by
  rw [Wire.request] at h
  split at h
  next hsend =>
    cases h
    exact .inl ⟨hsend, rfl, rfl⟩
  next hsend =>
    obtain ⟨⟨w₁, run⟩, happly, h⟩ := comesBack_bind.mp h
    refine .inr ⟨Int.not_lt.mp hsend, w₁, run, happly, ?_⟩
    dsimp only at h
    split at h
    next hrun =>
      cases h
      exact .inl ⟨hrun, rfl, rfl⟩
    next hrun =>
      obtain ⟨⟨w₂, recv⟩, hreceive, h⟩ := comesBack_bind.mp h
      cases h
      exact .inr ⟨not_not.mp hrun, recv, hreceive, rfl⟩

/-- A turn of the service on a packet that was sent keeps the number of packets
from before, and adds a response when it returns zero. -/
theorem serve_backlog {pk : Packet F} {ret : Int}
    (h : Wire.serve p o { w with requests := w.requests ++ [pk] } = .ok (w', ret)) :
    (ret < 0 ∧ w'.backlog = w.backlog) ∨ (ret = 0 ∧ w'.backlog = w.backlog + 1) := by
  obtain ⟨front, rest, hfront, hlen⟩ := exists_front w.requests pk
  obtain ⟨hreq, hres⟩ := serve_packets hfront h
  simp only [Wire.backlog, hreq, hlen]
  rcases hres with ⟨hneg, hkeep⟩ | ⟨hzero, rs, hadd⟩
  · exact .inl ⟨hneg, by rw [hkeep]⟩
  · refine .inr ⟨hzero, ?_⟩
    rw [hadd, List.length_append]
    rfl

theorem request_backlog {rq : List Byte} {ex : Exchange} (h : w.request p o rq = .ok (w', ex)) :
    w.backlog ≤ w'.backlog := by
  rcases request_cases h with ⟨-, rfl, -⟩ | ⟨-, w₁, run, happly, hend⟩
  · exact Nat.le_refl _
  have hfirst : w.backlog ≤ w₁.backlog ∧ (run = 0 → w₁.backlog = w.backlog + 1) := by
    rcases Exec.apply_cases happly with ⟨rfl, hneg, -⟩ | ⟨-, hserve⟩ | ⟨hneg, -, r, hserve⟩
    · simp only [Wire.backlog, List.length_append, List.length_singleton]
      omega
    · have := serve_backlog hserve
      omega
    · have := serve_backlog hserve
      omega
  rcases hend with ⟨-, rfl, -⟩ | ⟨hzero, recv, hreceive, -⟩
  · exact hfirst.1
  · have := hfirst.2 hzero
    have := (receive_backlog hreceive).1
    omega

theorem transferFd_backlog {file : F} {fd : Int} (h : w.transferFd p o file = .ok (w', fd)) :
    w.backlog ≤ w'.backlog := by
  rw [Wire.transferFd] at h
  split at h
  · cases h
    exact Nat.le_refl _
  split at h
  · cases h
    exact Nat.le_refl _
  have htaken : ∀ fd', Wire.receiveFd p { w with requests := w.requests ++ [⟨[120], some file⟩] } =
      .ok (w', fd') → w.backlog ≤ w'.backlog := by
    intro fd' hreceive
    obtain ⟨front, rest, hfront, hlen⟩ := exists_front w.requests ⟨[120], some file⟩
    simp only [Wire.receiveFd, hfront] at hreceive
    split at hreceive
    · cases hreceive
    · cases hreceive
      simp [Wire.backlog, hlen]
  rcases Exec.apply_cases h with ⟨rfl, -, -⟩ | ⟨-, hreceive⟩ | ⟨-, -, fd', hreceive⟩
  · simp only [Wire.backlog, List.length_append, List.length_singleton]
    omega
  · exact htaken fd hreceive
  · exact htaken fd' hreceive

end

/-- The steps of a request failed before a response could be received. -/
def Exchange.Failed (ex : Exchange) : Prop := ex.send < 0 ∨ (0 ≤ ex.send ∧ ex.run < 0)

theorem serviceExchange_failed {ex : Exchange} {rs : Buffer} (h : ex.Failed) :
    (serviceExchange ex rs).2 < 0 := by
  rcases serviceExchange_cases ex rs with ⟨hsend, heq⟩ | ⟨hsend, hrun, heq⟩ |
    ⟨hsend, hrun, hret, heq⟩ | ⟨hsend, hrun, hret, heq⟩
  · rw [heq]
    exact hsend
  · rw [heq]
    exact (h.resolve_left (Int.not_lt.mpr hsend)).2
  · rw [heq]
    exact hret
  · have := (h.resolve_left (Int.not_lt.mpr hsend)).2
    omega

theorem length_received {rq : List Byte} (h : 4 ≤ rq.length) : 4 ≤ (received rq).length := by
  rw [received, List.length_take, messageSize]
  omega

/-- A call does not get to a request, it is a request of which it returns what the
steps give, or it passes on a file. -/
theorem perform_forms (p : Peer σ F) (o : Outcome) (c : ServiceCall F) :
    (∃ err : Int, err < 0 ∧ ¬ c.Leaves p o ∧ ∀ {α : Type}
        (request : List Byte → α → Except Stuck (α × Exchange))
      (transfer : F → α → Except Stuck (α × Int)) (a : α),
      c.perform request transfer o a = .ok (a, { ret := err })) ∨
    (∃ (rq : List Byte) (reply : Exchange → Reply), c.message = some rq ∧
      4 ≤ (received rq).length ∧
      (c.Leaves p o ↔ 0 ≤ o.send ∧ o.Strands) ∧
      (∀ ex : Exchange, ex.Failed → (reply ex).ret < 0) ∧
      ∀ {α : Type} (request : List Byte → α → Except Stuck (α × Exchange))
        (transfer : F → α → Except Stuck (α × Int)) (a : α),
        c.perform request transfer o a = (request rq a).map fun r => (r.1, reply r.2)) ∨
    ∃ file, c = .transferFd file := by
  cases c with
  | mmapDlm dlm fd =>
      by_cases hfit : dlm.vmas.length ≤ maxMmaps
      · obtain ⟨mrq, hrq, -⟩ := mmapRequest_ok fd hfit
        refine .inr (.inl ⟨requestBytes .mmap mrq (16 + 32 * dlm.vmas.length),
          fun ex => { ret := (serviceExchange ex o.rs).2 }, by rw [ServiceCall.message, hrq]; rfl,
          length_received (by rw [requestBytes_length]; omega), by simp [ServiceCall.Leaves, hfit],
          fun ex hex => serviceExchange_failed hex, fun request transfer a => ?_⟩)
        simp only [ServiceCall.perform, hrq, Client.serviceMmapDlm]
      · refine .inl ⟨-E2BIG, by decide, by simp [ServiceCall.Leaves, hfit],
          fun request transfer a => ?_⟩
        simp only [ServiceCall.perform, mmapRequest_full (Nat.not_le.mp hfit)]
  | munmapDlm dlm =>
      by_cases hfit : dlm.vmas.length ≤ maxMunmaps
      · obtain ⟨mrq, hrq, -⟩ := munmapRequest_ok hfit
        refine .inr (.inl ⟨requestBytes .munmap mrq (8 + 16 * dlm.vmas.length),
          fun ex => { ret := (serviceExchange ex o.rs).2 }, by rw [ServiceCall.message, hrq]; rfl,
          length_received (by rw [requestBytes_length]; omega), by simp [ServiceCall.Leaves, hfit],
          fun ex hex => serviceExchange_failed hex, fun request transfer a => ?_⟩)
        simp only [ServiceCall.perform, hrq, Client.serviceMunmapDlm]
      · refine .inl ⟨-E2BIG, by decide, by simp [ServiceCall.Leaves, hfit],
          fun request transfer a => ?_⟩
        simp only [ServiceCall.perform, munmapRequest_full (Nat.not_le.mp hfit)]
  | neededArray =>
      refine .inr (.inl ⟨neededRequest, fun ex =>
        { ret := (serviceNeededArray (fun _ => ex) o.alloc o.rs).1
          array := (serviceNeededArray (fun _ => ex) o.alloc o.rs).2 }, rfl, by decide, Iff.rfl,
        fun ex hex => ?_, fun request transfer a => rfl⟩)
      have hneg : (serviceExchange ex o.rs).2 < 0 := serviceExchange_failed hex
      simp only [serviceNeededArray]
      rw [if_pos (Int.ne_of_lt hneg)]
      exact hneg
  | transferFd file => exact .inr (.inr ⟨file, rfl⟩)

section

variable {p : Peer σ F} {o : Outcome} {w w' : Wire σ F}

/-- A call never takes more packets than it sends. -/
theorem call_backlog {c : ServiceCall F} {r : Reply} (h : w.call p o c = .ok (w', r)) :
    w.backlog ≤ w'.backlog := by
  rw [Wire.call] at h
  rcases perform_forms p o c with ⟨err, -, -, hform⟩ | ⟨rq, reply, -, -, -, -, hform⟩ | ⟨file, rfl⟩
  · rw [hform] at h
    cases h
    exact Nat.le_refl _
  · rw [hform] at h
    obtain ⟨⟨w₁, ex⟩, hreq, heq⟩ := comesBack_map.mp h
    cases heq
    exact request_backlog hreq
  · obtain ⟨⟨w₁, fd⟩, htransfer, heq⟩ := comesBack_map.mp h
    cases heq
    exact transferFd_backlog htransfer

/-- What the patcher receives is the response in front. -/
theorem receive_front {w₁ w₂ w₁' w₂' : Wire σ F} {recv₁ recv₂ : Recv}
    (hfront : w₁.responses.head? = w₂.responses.head?) (h₁ : w₁.receive o = .ok (w₁', recv₁))
    (h₂ : w₂.receive o = .ok (w₂', recv₂)) : recv₁ = recv₂ := by
  simp only [Wire.receive] at h₁ h₂
  cases hrecv : o.recvErr with
  | some errno =>
      simp only [hrecv] at h₁ h₂
      cases h₁
      cases h₂
      rfl
  | none =>
      simp only [hrecv] at h₁ h₂
      split at h₁
      · cases h₁
      next rs₁ rest₁ heq₁ =>
        split at h₂
        · cases h₂
        next rs₂ rest₂ heq₂ =>
          cases h₁
          cases h₂
          simpa [heq₁, heq₂] using hfront

/-- With packets in flight, a turn of the service does not show which command was
sent last. -/
theorem serve_stale {rq rq' : List Byte} {w₁ w₂ : Wire σ F} {ret₁ ret₂ : Int}
    (hback : 0 < w.backlog) (hlen : 4 ≤ (received rq).length) (hlen' : 4 ≤ (received rq').length)
    (h₁ : Wire.serve p o { w with requests := w.requests ++ [⟨rq, none⟩] } = .ok (w₁, ret₁))
    (h₂ : Wire.serve p o { w with requests := w.requests ++ [⟨rq', none⟩] } = .ok (w₂, ret₂)) :
    ret₁ = ret₂ ∧ w₁.responses.head? = w₂.responses.head? := by
  simp only [Wire.serve] at h₁ h₂
  obtain ⟨⟨s₁, response₁, r₁⟩, hrun₁, heq₁⟩ := comesBack_map.mp h₁
  obtain ⟨⟨s₂, response₂, r₂⟩, hrun₂, heq₂⟩ := comesBack_map.mp h₂
  cases heq₁
  cases heq₂
  cases hreq : w.requests with
  | cons pk rest =>
      simp only [hreq, List.cons_append] at hrun₁ hrun₂
      rw [hrun₁] at hrun₂
      cases hrun₂
      exact ⟨rfl, rfl⟩
  | nil =>
      simp only [hreq, List.nil_append] at hrun₁ hrun₂
      rw [run_command hlen] at hrun₁
      rw [run_command hlen'] at hrun₂
      split at hrun₁
      · cases hrun₁
      split at hrun₂
      · cases hrun₂
      cases hrun₁
      cases hrun₂
      refine ⟨rfl, ?_⟩
      cases hres : w.responses with
      | nil => simp [Wire.backlog, hreq, hres] at hback
      | cons rs rest => rfl

/-- With packets in flight, the steps of a request that come back end in the same
way whatever it asks for. -/
theorem request_stale {rq rq' : List Byte} {w₁ w₂ : Wire σ F} {ex₁ ex₂ : Exchange}
    (hback : 0 < w.backlog) (hlen : 4 ≤ (received rq).length) (hlen' : 4 ≤ (received rq').length)
    (h₁ : w.request p o rq = .ok (w₁, ex₁)) (h₂ : w.request p o rq' = .ok (w₂, ex₂)) :
    ex₁ = ex₂ := by
  rcases request_cases h₁ with ⟨hsend, -, rfl⟩ | ⟨hsend, v₁, run₁, happly₁, hend₁⟩
  · rcases request_cases h₂ with ⟨-, -, rfl⟩ | ⟨hsend', -⟩
    · rfl
    · exact absurd hsend (Int.not_lt.mpr hsend')
  rcases request_cases h₂ with ⟨hsend', -, -⟩ | ⟨-, v₂, run₂, happly₂, hend₂⟩
  · omega
  have hsame : run₁ = run₂ ∧ (run₁ = 0 → v₁.responses.head? = v₂.responses.head?) := by
    cases hexec : o.exec with
    | ran =>
        rw [hexec] at happly₁ happly₂
        have := serve_stale hback hlen hlen' happly₁ happly₂
        exact ⟨this.1, fun _ => this.2⟩
    | refused err neg =>
        rw [hexec] at happly₁ happly₂
        cases happly₁
        cases happly₂
        exact ⟨rfl, fun _ => rfl⟩
    | lost err neg =>
        rw [hexec] at happly₁ happly₂
        obtain ⟨_, -, heq₁⟩ := comesBack_map.mp happly₁
        obtain ⟨_, -, heq₂⟩ := comesBack_map.mp happly₂
        simp only [Prod.mk.injEq] at heq₁ heq₂
        rw [← heq₁.2, ← heq₂.2]
        exact ⟨rfl, fun hzero => absurd hzero (Int.ne_of_lt neg)⟩
  obtain ⟨rfl, hfront⟩ := hsame
  rcases hend₁ with ⟨hrun, -, rfl⟩ | ⟨hrun, recv₁, hreceive₁, rfl⟩
  · rcases hend₂ with ⟨-, -, rfl⟩ | ⟨hrun', -⟩
    · rfl
    · exact absurd hrun' hrun
  · rcases hend₂ with ⟨hrun', -⟩ | ⟨-, recv₂, hreceive₂, rfl⟩
    · exact absurd hrun hrun'
    · rw [receive_front (hfront hrun) hreceive₁ hreceive₂]

end

end Nsb
