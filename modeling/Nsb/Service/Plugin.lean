import Nsb.Service.LinkMap
import Nsb.Service.Messages

/-!
# The service

`plugins/service.c`, the code that runs inside the process.  `nsbServiceRun` is
one turn of its loop: receive a request into a buffer on the stack, call the
handler that the table has for the command, send the response.

What the handlers do to the process goes through a `Kernel`.  `Host` is the rest
of the process as the service finds it, and `Serving` what a handler may change.
A run of `nsbServiceRun` is `none` when the service never gets to an answer,
because it follows a null pointer or a list without an end.
-/

namespace Nsb

/-- The process around the service.  `past` is the word behind the last entry of
`nsb_service_cmd_handlers`, `frameSize` is `sizeof(struct rt_sigframe)`. -/
structure Host (σ : Type) where
  kernel : Kernel σ
  mem : Mem := fun _ => 0
  rMap : Addr := 0
  frameSize : Nat := 0
  past : Addr := 0

/-- `struct nsb_response_data`. -/
structure ResponseData where
  used : Nat := 0
  data : Buffer := fun _ => 0

/-- The state of the process and of the service while a command is handled. -/
structure Serving (σ : Type) where
  os : σ
  stop : Bool := false
  emergencySigframe : List Byte := []
  rd : ResponseData := {}

variable {σ : Type}

/-- `nsb_service_response_print`, after formatting. -/
def nsbServiceResponsePrint (text : String) (s : Serving σ) : Serving σ :=
  let left := NSB_SERVICE_MESSAGE_DATA_SIZE - s.rd.used
  if left = 0 then s
  else
    { s with
      rd :=
        { used := s.rd.used + (textBytes text).length + 1
          data := s.rd.data.put s.rd.used ((textBytes text).take (left - 1) ++ [0]) } }

variable (h : Host σ)

/-! ## The handlers -/

/-- `nsb_service_cmd_emerg_sigframe`. -/
def nsbServiceCmdEmergSigframe (data : Buffer) (size : Nat) (s : Serving σ) : Serving σ × Int :=
  if size ≠ h.frameSize then
    (nsbServiceResponsePrint ("frame size is invalid: " ++ fmtLd (BitVec.ofNat 64 size) ++ " (" ++
      fmtLd (BitVec.ofNat 64 h.frameSize) ++ ")") s, -EINVAL)
  else ({ s with emergencySigframe := data.slice 0 size }, 0)

/-- `nsb_service_cmd_stop`. -/
def nsbServiceCmdStop (s : Serving σ) : Serving σ × Int := ({ s with stop := true }, 0)

/-- `nsb_service_cmd_do_munmap`. -/
def nsbServiceCmdDoMunmap (mai : MapAddrInfo) (s : Serving σ) : Serving σ × Int :=
  let (os, ret) := h.kernel mai.call s.os
  if ret < 0 then
    (nsbServiceResponsePrint ("failed to munmap " ++ fmtAltX mai.addr ++ "-" ++
      fmtAltX (mai.addr + mai.length)) { s with os := os }, ret)
  else ({ s with os := os }, 0)

/-- `nsb_service_cmd_munmap`. -/
def Plugin.nsbServiceCmdMunmap (data : Buffer) (s : Serving σ) : Serving σ × Int :=
  if (nrMunmaps data).toNat > maxMunmaps then
    (nsbServiceResponsePrint ("too many numap requests: " ++ fmtD (nrMunmaps data) ++ " (max: " ++
      fmtLd (BitVec.ofNat 64 maxMunmaps) ++ ")") s, -E2BIG)
  else Loop.each (nsbServiceCmdDoMunmap h) (munmapRequestInfos data) s

/-- `nsb_service_cmd_do_mmap`.  The text has the protection under "flags" and the
flags under "prot". -/
def nsbServiceCmdDoMmap (fd : BitVec 32) (mi : MmapInfo) (s : Serving σ) : Serving σ × Int :=
  let (os, ret) := h.kernel (mi.call fd) s.os
  if ret < 0 then
    (nsbServiceResponsePrint ("failed to create new mapping " ++ fmtAltX mi.info.addr ++ "-" ++
      fmtAltX (mi.info.addr + mi.info.length) ++ " with flags " ++ fmtAltX mi.prot ++ ", prot " ++
      fmtAltX mi.flags ++ ", offset " ++ fmtAltX mi.offset) { s with os := os }, ret)
  else ({ s with os := os }, 0)

/-- The loop of `nsb_service_cmd_mmap`: `done` are the mappings made so far, the
last one first.  The error path starts at the mapping that failed and leaves out
the first one. -/
def cmdMmapLoop (fd : BitVec 32) :
    List MmapInfo → List MmapInfo → Serving σ → Serving σ × Int
  | _, [], s => (s, 0)
  | done, mi :: l, s =>
      let (s, err) := nsbServiceCmdDoMmap h fd mi s
      if err ≠ 0 then
        ((mi :: done).dropLast.foldl (fun s mi => (nsbServiceCmdDoMunmap h mi.info s).1) s, err)
      else cmdMmapLoop fd (mi :: done) l s

/-- `nsb_service_cmd_mmap`. -/
def Plugin.nsbServiceCmdMmap (data : Buffer) (s : Serving σ) : Serving σ × Int :=
  if (nrMmaps data).toNat > maxMmaps then
    (nsbServiceResponsePrint ("too many map requests: " ++ fmtD (nrMmaps data) ++ " (max: " ++
      fmtLd (BitVec.ofNat 64 maxMmaps) ++ ")") s, -E2BIG)
  else if (nrMmaps data).toNat ≠ 2 then
    (nsbServiceResponsePrint ("rq->nr_mmaps: " ++ fmtD (nrMmaps data)) s, -EINVAL)
  else
    let (s, err) := cmdMmapLoop h (mmapRequestFd data) [] (mmapRequestInfos data) s
    if err ≠ 0 then (s, err)
    else ({ s with os := (h.kernel (.close (mmapRequestFd data)) s.os).1 }, 0)

/-- `nsb_service_dynamic_tag_val`. -/
def nsbServiceDynamicTagVal (mem : Mem) (tag : BitVec 64) : Nat → Addr → Option (BitVec 64)
  | 0, _ => none
  | fuel + 1, d =>
      if wordAt mem d = DT_NULL then some (BitVec.ofInt 64 (-ENOENT))
      else if wordAt mem d = tag then some (wordAt mem (d + 8))
      else nsbServiceDynamicTagVal mem tag fuel (d + 16)

/-- The loop of `nsb_service_cmd_needed_list`.  The last object is the service. -/
def neededListLoop : Nat → Addr → Nat → Serving σ → Option (Serving σ × Int)
  | 0, _, _, _ => none
  | fuel + 1, lm, nr, s =>
      if lm = 0 then none
      else if nr = maxBaseAddrs then
        some (nsbServiceResponsePrint ("to many base addresses (max: " ++
          fmtLd (BitVec.ofNat 64 maxBaseAddrs) ++ ")") { s with rd := { s.rd with used := 0 } },
          -E2BIG)
      else do
        let dtSymtabAddr ←
          nsbServiceDynamicTagVal h.mem DT_SYMTAB (fuel + 1) (wordAt h.mem (lm + offLd))
        if dtSymtabAddr = BitVec.ofInt 64 (-ENOENT) then
          some (nsbServiceResponsePrint ("failed to find DT_SYMTAB (l_addr: " ++
            fmtLx (wordAt h.mem lm) ++ ")") { s with rd := { s.rd with used := 0 } }, -ENOENT)
        else
          let keep := decide ((wordAt h.mem lm).toInt ≤ dtSymtabAddr.toInt)
          let rd : ResponseData :=
            if keep then
              { used := s.rd.used + 8
                data := addressLayout.write s.rd.data (8 + 8 * nr) dtSymtabAddr }
            else s.rd
          let nr := if keep then nr + 1 else nr
          let lm := wordAt h.mem (lm + offNext)
          if lm = 0 then none
          else if wordAt h.mem (lm + offNext) ≠ 0 then neededListLoop fuel lm nr { s with rd := rd }
          else
            some ({ s with
              rd := { used := 8 + 8 * nr, data := rd.data.set 0 (BitVec.ofNat 64 nr) } }, 0)

/-- `nsb_service_cmd_needed_list`. -/
def nsbServiceCmdNeededList (fuel : Nat) (s : Serving σ) : Option (Serving σ × Int) :=
  neededListLoop h fuel h.rMap 0 s

/-! ## Requests and responses -/

/-- `nsb_do_handle_cmd`.  The check lets `NSB_SERVICE_CMD_MAX` itself pass, which
is the index of the word behind the table. -/
def nsbDoHandleCmd (fuel : Nat) (rq : Buffer) (dataSize : Nat) (s : Serving σ) :
    Option (Serving σ × Int) :=
  if rqCmd rq > NSB_SERVICE_CMD_MAX then
    some (nsbServiceResponsePrint ("unknown command: " ++ fmtD (BitVec.ofNat 64 (rqCmd rq))) s,
      -EINVAL)
  else
    match ServiceCmd.ofCode (rqCmd rq) with
    | some .emergSigframe => some (nsbServiceCmdEmergSigframe h (messageData rq) dataSize s)
    | some .stop => some (nsbServiceCmdStop s)
    | some .neededList => nsbServiceCmdNeededList h fuel s
    | some .mmap => some (Plugin.nsbServiceCmdMmap h (messageData rq) s)
    | some .munmap => some (Plugin.nsbServiceCmdMunmap h (messageData rq) s)
    | none =>
        if h.past = 0 then
          some (nsbServiceResponsePrint
            ("unsupported command: " ++ fmtD (BitVec.ofNat 64 (rqCmd rq))) s,
            -EINVAL)
        else some ({ s with os := (h.kernel (.jump h.past) s.os).1 },
          (h.kernel (.jump h.past) s.os).2)

/-- How a run of the service ends.  `response` is what it sends, `ret` what
`nsb_service_run` returns; it does not return from `emergency_sigreturn`. -/
structure Run (σ : Type) where
  serving : Serving σ
  response : Option (List Byte)
  ret : Option Int

/-- The bytes of a response. -/
def responseBytes (ret : Int) (rd : ResponseData) : List Byte :=
  Bytes.leBytes 4 (BitVec.ofInt 32 ret).toNat ++ rd.data.slice 0 rd.used

/-- `nsb_handle_command`; `sent` is the result of `nsb_service_send_response`. -/
def nsbHandleCommand (fuel : Nat) (rq : Buffer) (dataSize : Nat) (sent : Int) (s : Serving σ) :
    Option (Run σ) := do
  let (s, ret) ← nsbDoHandleCmd h fuel rq dataSize { s with rd := {} }
  pure
    { serving := s
      response := some (responseBytes ret s.rd)
      ret := if sent < 0 then some sent else if sent = 0 then none else some 0 }

/-- What `recv` does: it fails with an `errno`, or there is a message. -/
inductive Recv where
  | error (errno : Nat)
  | message (bytes : List Byte)
deriving DecidableEq

/-- The bytes of a message that fit into the buffer. -/
def received (bytes : List Byte) : List Byte := bytes.take messageSize

/-- `nsb_service_receive_request` into a buffer. -/
def nsbServiceReceiveRequest (recv : Recv) (rq : Buffer) : Buffer × Int :=
  match recv with
  | .error errno => (rq, -errno)
  | .message bytes =>
      let size := (received bytes).length
      (rq.put 0 (received bytes), if size ≠ 0 ∧ size < 4 then -EINVAL else size)

/-- `nsb_service_run`.  `rq` is what the buffer on the stack holds before. -/
def nsbServiceRun (fuel : Nat) (recv : Recv) (sent : Int) (rq : Buffer) (s : Serving σ) :
    Option (Run σ) :=
  let (rq, size) := nsbServiceReceiveRequest recv rq
  if size < 0 then
    some { serving := s, response := none, ret := some (if size = -EAGAIN then 0 else size) }
  else if size = 0 then some { serving := s, response := none, ret := none }
  else nsbHandleCommand h fuel rq (size.toNat - 4) sent s

/-! ## A request that was received -/

section

variable {msg : List Byte} {rq rq' : Buffer} {i : Nat}

/-- The data of a message that was received over the contents of a buffer. -/
def requestData (msg : List Byte) (rq : Buffer) : Buffer := messageData (rq.put 0 msg)

theorem requestData_inside (h : 4 + i < msg.length) :
    requestData msg rq i = requestData msg rq' i :=
  Buffer.put_front_congr h

theorem requestData_congr (h : rq (4 + i) = rq' (4 + i)) :
    requestData msg rq i = requestData msg rq' i := by
  show rq.put 0 msg (4 + i) = rq'.put 0 msg (4 + i)
  exact Buffer.put_congr h

/-- The command of a message. -/
def messageCmd (msg : List Byte) : Nat := Bytes.leNat (msg.take 4)

theorem rqCmd_received (h : 4 ≤ msg.length) : rqCmd (rq.put 0 msg) = messageCmd msg := by
  rw [rqCmd, Buffer.toNat_get _ _ (by decide), Buffer.num, Buffer.slice_put_front (by omega)]
  rfl

end

/-- With a command in it, a message gets to the handler. -/
theorem nsbServiceRun_message {fuel : Nat} {bytes : List Byte} {sent : Int} {rq : Buffer}
    {s : Serving σ} (hlen : 4 ≤ (received bytes).length) :
    nsbServiceRun h fuel (.message bytes) sent rq s =
      nsbHandleCommand h fuel (rq.put 0 (received bytes)) ((received bytes).length - 4) sent s := by
  have hrecv : nsbServiceReceiveRequest (.message bytes) rq =
      (rq.put 0 (received bytes), ((received bytes).length : Int)) := by
    simp only [nsbServiceReceiveRequest]
    rw [if_neg (by omega)]
  rw [nsbServiceRun, hrecv]
  dsimp only
  rw [if_neg (by omega), if_neg (by omega), Int.toNat_natCast]

section

variable {h}

/-- The response is sent. -/
theorem nsbHandleCommand_sent {fuel n : Nat} {rq : Buffer} {sent : Int} {s : Serving σ}
    {r : Serving σ × Int} (hdo : nsbDoHandleCmd h fuel rq n { s with rd := {} } = some r)
    (hsent : 0 < sent) :
    nsbHandleCommand h fuel rq n sent s =
      some { serving := r.1, response := some (responseBytes r.2 r.1.rd), ret := some 0 } := by
  rw [nsbHandleCommand, hdo, if_neg (Int.not_lt.mpr (Int.le_of_lt hsent)),
    if_neg (Int.ne_of_gt hsent)]
  rfl

theorem rqCmd_not_gt {rq : Buffer} {cmd : ServiceCmd}
    (hcmd : ServiceCmd.ofCode (rqCmd rq) = some cmd) :
    ¬ rqCmd rq > NSB_SERVICE_CMD_MAX := by
  intro hgt
  rw [ServiceCmd.ofCode_eq_none.mpr (Nat.le_of_lt hgt)] at hcmd
  cases hcmd

theorem doHandleCmd_neededList {fuel n : Nat} {rq : Buffer} {s : Serving σ}
    (hcmd : ServiceCmd.ofCode (rqCmd rq) = some .neededList) :
    nsbDoHandleCmd h fuel rq n s = nsbServiceCmdNeededList h fuel s := by
  rw [nsbDoHandleCmd, if_neg (rqCmd_not_gt hcmd), hcmd]

theorem doHandleCmd_mmap {fuel n : Nat} {rq : Buffer} {s : Serving σ}
    (hcmd : ServiceCmd.ofCode (rqCmd rq) = some .mmap) :
    nsbDoHandleCmd h fuel rq n s = some (Plugin.nsbServiceCmdMmap h (messageData rq) s) := by
  rw [nsbDoHandleCmd, if_neg (rqCmd_not_gt hcmd), hcmd]

theorem doHandleCmd_munmap {fuel n : Nat} {rq : Buffer} {s : Serving σ}
    (hcmd : ServiceCmd.ofCode (rqCmd rq) = some .munmap) :
    nsbDoHandleCmd h fuel rq n s = some (Plugin.nsbServiceCmdMunmap h (messageData rq) s) := by
  rw [nsbDoHandleCmd, if_neg (rqCmd_not_gt hcmd), hcmd]

end

/-! ## Calls that succeed -/

/-- A process in which every call succeeds, and the calls are recorded. -/
def recordingHost (past : Addr) : Host (List Call) :=
  { kernel := recorder fun _ _ => 0, past := past }

section

variable {h} {ret : List Call → Call → Int} {hr : Host (List Call)} (hk : hr.kernel = recorder ret)
include hk

/-- Mappings that all succeed are made in order. -/
theorem cmdMmapLoop_ok {fd : BitVec 32} {done l : List MmapInfo} {s : Serving (List Call)}
    (hret : ∀ calls, ∀ mi ∈ l, 0 ≤ ret calls (mi.call fd)) :
    cmdMmapLoop hr fd done l s = ({ s with os := s.os ++ l.map (MmapInfo.call fd) }, 0) := by
  induction l generalizing done s with
  | nil =>
      rw [cmdMmapLoop, List.map_nil, List.append_nil]
  | cons mi l induction =>
      have hmi : nsbServiceCmdDoMmap hr fd mi s = ({ s with os := s.os ++ [mi.call fd] }, 0) := by
        have hpos : ¬ ret s.os (mi.call fd) < 0 :=
          Int.not_lt.mpr (hret s.os mi (List.mem_cons_self ..))
        rw [nsbServiceCmdDoMmap, hk]
        exact if_neg hpos
      rw [cmdMmapLoop, hmi]
      show cmdMmapLoop hr fd (mi :: done) l { s with os := s.os ++ [mi.call fd] } = _
      rw [induction fun calls mi' hmi' => hret calls mi' (List.mem_cons_of_mem _ hmi')]
      simp

/-- A request for two mappings that both succeed. -/
theorem cmdMmap_two {data : Buffer} {s : Serving (List Call)} (hnr : (nrMmaps data).toNat = 2)
    (hret : ∀ calls, ∀ mi ∈ mmapRequestInfos data, 0 ≤ ret calls (mi.call (mmapRequestFd data))) :
    Plugin.nsbServiceCmdMmap hr data s =
      ({ s with os := s.os ++ (mmapRequestInfos data).map (MmapInfo.call (mmapRequestFd data)) ++
          [.close (mmapRequestFd data)] }, 0) := by
  rw [Plugin.nsbServiceCmdMmap, hnr, if_neg (by decide), if_neg (by decide), cmdMmapLoop_ok hk hret,
    hk]
  rfl

/-- Unmappings that all succeed are made in order, too. -/
theorem cmdMunmapLoop_ok {l : List MapAddrInfo} {s : Serving (List Call)}
    (hret : ∀ calls, ∀ mai ∈ l, 0 ≤ ret calls mai.call) :
    Loop.each (nsbServiceCmdDoMunmap hr) l s =
      ({ s with os := s.os ++ l.map MapAddrInfo.call }, 0) := by
  induction l generalizing s with
  | nil => simp
  | cons mai l induction =>
      have hmai : nsbServiceCmdDoMunmap hr mai s = ({ s with os := s.os ++ [mai.call] }, 0) := by
        have hpos : ¬ ret s.os mai.call < 0 :=
          Int.not_lt.mpr (hret s.os mai (List.mem_cons_self ..))
        rw [nsbServiceCmdDoMunmap, hk]
        exact if_neg hpos
      rw [Loop.each_cons_ok (by rw [hmai]), hmai,
        induction fun calls mai' hmai' => hret calls mai' (List.mem_cons_of_mem _ hmai')]
      simp

end

theorem responseBytes_length (ret : Int) (rd : ResponseData) :
    (responseBytes ret rd).length = 4 + rd.used := by
  simp [responseBytes]

/-- A response has the return code in it. -/
theorem responseBytes_ret {ret ret' : Int} {rd rd' : ResponseData}
    (heq : responseBytes ret rd = responseBytes ret' rd') :
    BitVec.ofInt 32 ret = BitVec.ofInt 32 ret' := by
  have hbytes := List.append_inj_left heq (by simp)
  have hnum := congrArg Bytes.leNat hbytes
  have hlt (x : BitVec 32) : x.toNat % 256 ^ 4 = x.toNat := Nat.mod_eq_of_lt x.isLt
  rw [Bytes.leNat_leBytes, Bytes.leNat_leBytes, hlt, hlt] at hnum
  exact BitVec.eq_of_toNat_eq hnum

end Nsb
