import Nsb.Service.Client
import Nsb.Patcher.Mapping

/-!
# Two ways of loading a patch

`process_mmap_dl_map` maps the segments of a patch by system calls in the process,
or by a request to the service.  Here both ways are modelled down to the arguments
of the calls, and the second one down to the bytes of the messages: the request
that `service_mmap_dlm` encodes is received over whatever the service had in its
buffer, decoded and carried out by `nsb_service_cmd_mmap`, and its response is
received in turn.

The service takes requests for two segments only.  `load_ways_agree_iff` says that
the two ways agree for patches with two segments and for no other ones.
`cmdMmapLoop_world` and `mapSegments_world` connect the calls with the mappings
they make in a `World`.
-/

namespace Nsb

/-! ## By system calls -/

section

variable {σ : Type}

/-- The calls that do not map: `process_open_file`, `service_transfer_fd` and the
send of the response.  `rq` and `rs` are what the buffers of the service and of
the patcher hold before. -/
structure Loading where
  openFd : Int
  transferFd : Int
  sent : Int
  rq : Buffer
  rs : Buffer

/-- The loop of `process_mmap_dlm_manual`: `done` are the segments mapped so far,
the last one first. -/
def mapSegments (k : Kernel σ) (fd : BitVec 32) : List Vma → List Vma → σ → σ × Int
  | _, [], os => (os, 0)
  | done, vma :: l, os =>
      let (os, addr) := k (vma.mmapInfo.call fd) os
      if addr < 0 then (done.foldl (fun os vma => (k vma.mapAddrInfo.call os).1) os, addr)
      else mapSegments k fd (vma :: done) l os

/-- `process_mmap_dlm_manual`. -/
def Load.processMmapDlmManual (k : Kernel σ) (ld : Loading) (dlm : DlMap) (os : σ) : σ × Int :=
  if ld.openFd < 0 then (os, ld.openFd)
  else
    let fd := BitVec.ofInt 32 ld.openFd
    let (os, addr) := mapSegments k fd [] dlm.vmas os
    if addr < 0 then (os, addr) else ((k (.close fd) os).1, 0)

/-! ## Through the service -/

/-- A call through the service: it receives the request, and its response comes
back. -/
def throughService (h : Host σ) (fuel : Nat) (ld : Loading) (s : Serving σ) (bytes : List Byte) :
    Option (Serving σ × Exchange) := do
  let run ← nsbServiceRun h fuel (.message bytes) ld.sent ld.rq s
  let ret ← run.ret
  let response ← run.response
  pure (run.serving, { send := bytes.length, run := ret, recv := .message response })

/-- `process_mmap_dlm_service`. -/
def Load.processMmapDlmService (h : Host σ) (fuel : Nat) (ld : Loading) (dlm : DlMap)
    (s : Serving σ) : Option (Serving σ × Int) :=
  if ld.transferFd < 0 then some (s, ld.transferFd)
  else
    let fd := BitVec.ofInt 32 ld.transferFd
    match mmapRequest dlm fd with
    | .error err => some (s, err)
    | .ok bytes => do
        let (s, ex) ← throughService h fuel ld s bytes
        pure (s, Client.serviceMmapDlm (fun _ => ex) dlm fd ld.rs)

/-- `process_mmap_dl_map`. -/
def Load.processMmapDlMap (h : Host σ) (fuel : Nat) (ld : Loading) (dryRun serviceLoaded : Bool)
    (dlm : DlMap) (s : Serving σ) : Option (Serving σ × Int) :=
  if dryRun then some (s, 0)
  else if serviceLoaded then Load.processMmapDlmService h fuel ld dlm s
  else
    let (os, err) := Load.processMmapDlmManual h.kernel ld dlm s.os
    some ({ s with os := os }, err)

/-! ## Messages that arrive -/

theorem received_short {bytes : List Byte} (h : bytes.length ≤ messageSize) :
    received bytes = bytes :=
  List.take_of_length_le h

theorem requestBytes_length (cmd : ServiceCmd) (data : Buffer) (len : Nat) :
    (requestBytes cmd data len).length = 4 + len := by
  simp [requestBytes]

theorem messageCmd_requestBytes (cmd : ServiceCmd) (data : Buffer) (len : Nat) :
    messageCmd (requestBytes cmd data len) = cmd.code := by
  have htake : (requestBytes cmd data len).take 4 = Bytes.leBytes 4 cmd.code := by
    rw [requestBytes, List.take_append_of_le_length (by simp), List.take_of_length_le (by simp)]
  rw [messageCmd, htake, Bytes.leNat_leBytes]
  cases cmd <;> rfl

/-- The service reads what the patcher wrote. -/
theorem requestData_requestBytes {cmd : ServiceCmd} {data rq : Buffer} {len i : Nat} (h : i < len) :
    requestData (requestBytes cmd data len) rq i = data i := by
  have hlen := requestBytes_length cmd data len
  have hget : rq.put 0 (requestBytes cmd data len) (0 + (4 + i)) =
      (requestBytes cmd data len)[4 + i] := Buffer.put_inside (by omega)
  show rq.put 0 (requestBytes cmd data len) (4 + i) = data i
  rw [← Nat.zero_add (4 + i), hget]
  simp [requestBytes, Buffer.slice]

/-- The return code of a response arrives. -/
theorem rsRet_responseBytes (ret : Int) (rd : ResponseData) (rs : Buffer) :
    4 ≤ (received (responseBytes ret rd)).length ∧
    rsRet (rs.put 0 (received (responseBytes ret rd))) = (BitVec.ofInt 32 ret).toInt := by
  have hlen : 4 ≤ (received (responseBytes ret rd)).length := by
    rw [received, List.length_take, responseBytes_length, messageSize]
    omega
  have hfront : (received (responseBytes ret rd)).take 4 =
      Bytes.leBytes 4 (BitVec.ofInt 32 ret).toNat := by
    rw [received, List.take_take, responseBytes, Nat.min_eq_left (by decide),
      List.take_append_of_le_length (by simp), List.take_of_length_le (by simp)]
  refine ⟨hlen, ?_⟩
  rw [rsRet, Buffer.get, Buffer.num, Buffer.slice_put_front (by omega), List.drop_zero, hfront,
    Bytes.leNat_leBytes,
    Nat.mod_eq_of_lt (show (BitVec.ofInt 32 ret).toNat < 256 ^ (32 / 8) from BitVec.isLt _),
    BitVec.ofNat_toNat, BitVec.setWidth_eq]

/-- A response that arrives decides the call. -/
theorem serviceExchange_response (ret : Int) (rd : ResponseData) (rs : Buffer) {send : Int}
    (hsend : 0 ≤ send) :
    serviceExchange { send := send, run := 0, recv := .message (responseBytes ret rd) } rs =
      (rs.put 0 (received (responseBytes ret rd)), min (BitVec.ofInt 32 ret).toInt 0) := by
  have hret : rsRet ((Recv.message (responseBytes ret rd)).store rs) =
    (BitVec.ofInt 32 ret).toInt :=
    (rsRet_responseBytes ret rd rs).2
  rcases serviceExchange_cases { send := send, run := 0, recv := .message (responseBytes ret rd) }
    rs with
    ⟨hneg, -⟩ | ⟨-, hrun, -⟩ | ⟨-, -, hneg, heq⟩ | ⟨-, -, hpos, heq⟩
  · exact absurd hneg (Int.not_lt.mpr hsend)
  · exact absurd rfl hrun
  · rw [hret] at hneg
    rw [heq, hret, Int.min_eq_left (Int.le_of_lt hneg)]
    rfl
  · rw [hret] at hpos
    rw [heq, Int.min_eq_right hpos]
    rfl

/-- What is left of the request when the service has received it. -/
theorem mmapRequest_received {dlm : DlMap} {fd : BitVec 32} (hfit : dlm.vmas.length ≤ maxMmaps)
    (rq : Buffer) :
    ∃ bytes, mmapRequest dlm fd = .ok bytes ∧ received bytes = bytes ∧ 4 ≤ bytes.length ∧
      messageCmd bytes = ServiceCmd.mmap.code ∧ mmapRequestFd (requestData bytes rq) = fd ∧
      (nrMmaps (requestData bytes rq)).toNat = dlm.vmas.length ∧
      mmapRequestInfos (requestData bytes rq) = dlm.vmas.map Vma.mmapInfo := by
  obtain ⟨mrq, hrq, hfd, hnr, hinfos⟩ := mmapRequest_ok fd hfit
  have hlen := requestBytes_length .mmap mrq (16 + 32 * dlm.vmas.length)
  have hread {i : Nat} (hi : i < 16 + 32 * dlm.vmas.length) :
      requestData (requestBytes .mmap mrq (16 + 32 * dlm.vmas.length)) rq i = mrq i :=
    requestData_requestBytes hi
  have hcount : nrMmaps (requestData (requestBytes .mmap mrq (16 + 32 * dlm.vmas.length)) rq) =
      nrMmaps mrq := Buffer.get_congr fun i _ hi => hread (by omega)
  refine ⟨_, hrq, received_short ?_, by omega, messageCmd_requestBytes .., ?_, ?_, ?_⟩
  · rw [hlen, messageSize, NSB_SERVICE_MESSAGE_DATA_SIZE]
    rw [maxMmaps] at hfit
    omega
  · exact (Buffer.get_congr fun i _ hi => hread (by omega)).trans hfd
  · rw [hcount, hnr]
  · refine (RecordLayout.elems_congr _ (fun i _ hi => (hread (by omega)).symm) fun i _ hi =>
      ?_).symm.trans
      hinfos
    have hi' : i < 16 + 32 * (nrMmaps mrq).toNat := hi
    rw [hnr] at hi'
    exact (hread hi').symm

/-- Through the service, a patch is loaded by what the handler does on the request. -/
theorem processMmapDlmService_run {h : Host σ} {fuel : Nat} {ld : Loading} {dlm : DlMap}
    {s : Serving σ} (hfit : dlm.vmas.length ≤ maxMmaps) (htransfer : 0 ≤ ld.transferFd)
    (hsent : 0 < ld.sent) :
    ∃ data, mmapRequestFd data = BitVec.ofInt 32 ld.transferFd ∧
      (nrMmaps data).toNat = dlm.vmas.length ∧
      mmapRequestInfos data = dlm.vmas.map Vma.mmapInfo ∧
      Load.processMmapDlmService h fuel ld dlm s =
        some ((Plugin.nsbServiceCmdMmap h data { s with rd := {} }).1,
          min (BitVec.ofInt 32 (Plugin.nsbServiceCmdMmap h data { s with rd := {} }).2).toInt
            0) := by
  obtain ⟨bytes, hrq, hrecv, hlen, hcmd, hfd, hnr, hinfos⟩ :=
    @mmapRequest_received dlm (BitVec.ofInt 32 ld.transferFd) hfit ld.rq
  refine ⟨requestData bytes ld.rq, hfd, hnr, hinfos, ?_⟩
  have hcode : ServiceCmd.ofCode (rqCmd (ld.rq.put 0 bytes)) = some .mmap := by
    rw [rqCmd_received hlen, hcmd]
    rfl
  obtain ⟨r, hr⟩ : ∃ r, r =
    Plugin.nsbServiceCmdMmap h (requestData bytes ld.rq) { s with rd := {} } :=
    ⟨_, rfl⟩
  have hdo : nsbDoHandleCmd h fuel (ld.rq.put 0 bytes) (bytes.length - 4) { s with rd := {} } =
      some r := by rw [doHandleCmd_mmap hcode, hr, requestData]
  have hrun : nsbServiceRun h fuel (.message bytes) ld.sent ld.rq s = _ :=
    nsbServiceRun_message h (by rwa [hrecv])
  rw [hrecv, nsbHandleCommand_sent hdo hsent] at hrun
  rw [← hr]
  have hex := serviceExchange_response r.2 r.1.rd ld.rs (Int.natCast_nonneg bytes.length)
  rw [Load.processMmapDlmService, if_neg (Int.not_lt.mpr htransfer)]
  simp only [hrq, throughService, hrun, Client.serviceMmapDlm]
  show some (r.1, (serviceExchange _ ld.rs).2) = _
  rw [hex]

end

/-! ## The mappings that are made -/

/-- The mapping that a call makes, apart from the number of the file. -/
def Call.mmapInfo? : Call → Option MmapInfo
  | .mmap addr length prot flags _ offset => some ⟨⟨addr, length⟩, prot, flags, offset⟩
  | _ => none

/-- The mappings that calls make, in order. -/
def mappings (calls : List Call) : List MmapInfo := calls.filterMap Call.mmapInfo?

theorem mappings_calls (fd : BitVec 32) (l : List MmapInfo) :
    mappings (l.map (MmapInfo.call fd) ++ [.close fd]) = l := by
  have hcalls : (l.map (MmapInfo.call fd)).filterMap Call.mmapInfo? = l := by
    rw [List.filterMap_map]
    exact List.filterMap_some
  rw [mappings, List.filterMap_append, hcalls]
  exact List.append_nil l

/-- Both ways of loading return zero and make the mappings of the patch. -/
def LoadsAgree (h : Host (List Call)) (fuel : Nat) (ld : Loading) (dlm : DlMap) : Prop :=
  ∃ s s', Load.processMmapDlMap h fuel ld false true dlm { os := [] } = some (s, 0) ∧
    Load.processMmapDlMap h fuel ld false false dlm { os := [] } = some (s', 0) ∧
    mappings s.os = mappings s'.os ∧ mappings s'.os = dlm.vmas.map Vma.mmapInfo

section

variable {ret : List Call → Call → Int} {h : Host (List Call)} (hk : h.kernel = recorder ret)
  (hret : ∀ calls fd (mi : MmapInfo), 0 ≤ ret calls (mi.call fd))

include hret in
/-- The calls of the first way. -/
theorem mapSegments_ok {fd : BitVec 32} {done l : List Vma} {calls : List Call} :
    mapSegments (recorder ret) fd done l calls =
      (calls ++ (l.map Vma.mmapInfo).map (MmapInfo.call fd), 0) := by
  induction l generalizing done calls with
  | nil => rw [mapSegments, List.map_nil, List.map_nil, List.append_nil]
  | cons vma l induction =>
      have hcall : recorder ret (vma.mmapInfo.call fd) calls =
          (calls ++ [vma.mmapInfo.call fd], ret calls (vma.mmapInfo.call fd)) := rfl
      rw [mapSegments, hcall]
      dsimp only
      rw [if_neg (Int.not_lt.mpr (hret calls fd vma.mmapInfo)), induction]
      simp

include hk hret

/-- By system calls, the segments of any patch are mapped. -/
theorem manual_load {ld : Loading} (fuel : Nat) (dlm : DlMap) (hopen : 0 ≤ ld.openFd) :
    ∃ s, Load.processMmapDlMap h fuel ld false false dlm { os := [] } = some (s, 0) ∧
      mappings s.os = dlm.vmas.map Vma.mmapInfo := by
  have hmanual : Load.processMmapDlmManual h.kernel ld dlm [] =
      ((dlm.vmas.map Vma.mmapInfo).map (MmapInfo.call (BitVec.ofInt 32 ld.openFd)) ++
        [.close (BitVec.ofInt 32 ld.openFd)], 0) := by
    rw [Load.processMmapDlmManual, if_neg (Int.not_lt.mpr hopen), hk]
    dsimp only
    rw [mapSegments_ok hret, List.nil_append, if_neg (Int.lt_irrefl 0)]
    rfl
  refine ⟨{ os := (dlm.vmas.map Vma.mmapInfo).map (MmapInfo.call (BitVec.ofInt 32 ld.openFd)) ++
    [.close (BitVec.ofInt 32 ld.openFd)] }, ?_, mappings_calls (BitVec.ofInt 32 ld.openFd) _⟩
  simp only [Load.processMmapDlMap]
  rw [hmanual]
  rfl

/-- Through the service, the segments of a patch with two segments are mapped. -/
theorem service_load {ld : Loading} {dlm : DlMap} (fuel : Nat) (htransfer : 0 ≤ ld.transferFd)
    (hsent : 0 < ld.sent) (htwo : dlm.vmas.length = 2) :
    ∃ s, Load.processMmapDlMap h fuel ld false true dlm { os := [] } = some (s, 0) ∧
      mappings s.os = dlm.vmas.map Vma.mmapInfo := by
  obtain ⟨data, -, hnr, hinfos, hrun⟩ := @processMmapDlmService_run _ h fuel ld dlm { os := [] }
    (by rw [htwo]; decide) htransfer hsent
  rw [cmdMmap_two hk (hnr.trans htwo) fun calls mi _ => hret calls _ mi] at hrun
  refine ⟨_, hrun, ?_⟩
  dsimp only
  rw [List.nil_append, mappings_calls, hinfos]

end

/-- Any other number of segments is refused. -/
theorem service_load_refused {σ : Type} {h : Host σ} {fuel : Nat} {ld : Loading} {dlm : DlMap}
    {s : Serving σ} (hfit : dlm.vmas.length ≤ maxMmaps) (htransfer : 0 ≤ ld.transferFd)
    (hsent : 0 < ld.sent) (htwo : dlm.vmas.length ≠ 2) :
    ∃ s', Load.processMmapDlMap h fuel ld false true dlm s = some (s', -EINVAL) := by
  obtain ⟨data, -, hnr, -, hrun⟩ :=
    @processMmapDlmService_run _ h fuel ld dlm s hfit htransfer hsent
  have hrefuse : (Plugin.nsbServiceCmdMmap h data { s with rd := {} }).2 = -EINVAL := by
    rw [Plugin.nsbServiceCmdMmap, hnr, if_neg (Nat.not_lt.mpr hfit), if_pos htwo]
  rw [hrefuse] at hrun
  exact ⟨_, hrun⟩

/-- The two ways of loading a patch agree for the patches with two segments. -/
theorem load_ways_agree_iff {ret : List Call → Call → Int} {h : Host (List Call)}
    (hk : h.kernel = recorder ret) (hret : ∀ calls fd (mi : MmapInfo), 0 ≤ ret calls (mi.call fd))
    (fuel : Nat) (ld : Loading) (hopen : 0 ≤ ld.openFd) (htransfer : 0 ≤ ld.transferFd)
    (hsent : 0 < ld.sent) (dlm : DlMap) (hfit : dlm.vmas.length ≤ 255) :
    LoadsAgree h fuel ld dlm ↔ dlm.vmas.length = 2 := by
  constructor
  · rintro ⟨s, s', hservice, -⟩
    refine Classical.byContradiction fun htwo => ?_
    obtain ⟨s'', hrefused⟩ :=
      @service_load_refused _ h fuel ld dlm { os := [] } hfit htransfer hsent htwo
    rw [hrefused] at hservice
    cases hservice
  · intro htwo
    obtain ⟨s, hservice, hmaps⟩ := service_load hk hret fuel htransfer hsent htwo
    obtain ⟨s', hmanual, hmaps'⟩ := manual_load hk hret fuel dlm hopen
    exact ⟨s, s', hservice, hmanual, hmaps.trans hmaps'.symm, hmaps'⟩

/-- Files 3 and 5, and buffers of zeros. -/
def plainLoading : Loading :=
  { openFd := 3, transferFd := 5, sent := 4, rq := Buffer.zeros, rs := Buffer.zeros }

theorem twoSegments_agree :
    twoSegments.vmas.length ≤ 255 ∧ LoadsAgree (recordingHost 0) 0 plainLoading twoSegments :=
  ⟨by decide, (load_ways_agree_iff rfl (fun _ _ _ => Int.le_refl 0) 0 plainLoading (by decide)
    (by decide)
    (by decide) twoSegments (by decide)).mpr rfl⟩

/-- A patch whose headers, code, constants and data are segments of their own. -/
def fourSegments : DlMap :=
  { id := 1, path := some "/tmp/patch.so", ei := {}
    vmas := [{ addr := 0x7f0000, length := 0x1000, prot := 1, flags := 18 },
      { addr := 0x7f1000, length := 0x1000, prot := 5, flags := 18, offset := 0x1000 },
      { addr := 0x7f2000, length := 0x1000, prot := 1, flags := 18, offset := 0x2000 },
      { addr := 0x7f3000, length := 0x1000, prot := 3, flags := 18, offset := 0x2000 }] }

/-- The service refuses it. -/
theorem fourSegments_disagree :
    fourSegments.vmas.length ≤ 255 ∧
      ¬ LoadsAgree (recordingHost 0) 0 plainLoading fourSegments := by
  refine ⟨by decide, ?_⟩
  rintro ⟨s, s', hservice, -⟩
  obtain ⟨s'', hrefused⟩ := @service_load_refused _ (recordingHost 0) 0 plainLoading fourSegments
    { os := [] } (by decide) (by decide) (by decide) (by decide)
  rw [hrefused] at hservice
  cases hservice

/-! ## The process -/

/-- The calls carried out on a process.  What they map is the file of `dlm`. -/
def worldKernel (ft : Faults) (dlm : DlMap) (close : World → World) : Kernel World
  | .mmap addr length prot flags _ offset, w =>
      processSyscall ft (World.mmap dlm.path dlm.ei
        { addr := addr, length := length, prot := prot, flags := flags, offset := offset }) w
  | .munmap addr length, w => processSyscall ft (World.munmap addr length) w
  | .close _, w => (close w, 0)
  | .jump _, w => (w, 0)

section

variable {ft : Faults} {dlm : DlMap} {close : World → World}

theorem worldKernel_mmap (fd : BitVec 32) (vma : Vma) (w : World) :
    worldKernel ft dlm close (vma.mmapInfo.call fd) w =
      processSyscall ft (World.mmap dlm.path dlm.ei vma) w := rfl

theorem worldKernel_munmap (vma : Vma) (w : World) :
    worldKernel ft dlm close vma.mapAddrInfo.call w =
      processSyscall ft (World.munmap vma.addr vma.length) w := rfl

/-- The first way, on a process. -/
theorem mapSegments_world {ctx : Ctx} (hctx : ctx.serviceLoaded = false) {fd : BitVec 32}
    {done l : List Vma} {w : World} :
    mapSegments (worldKernel ft dlm close) fd done l w = mmapDlmLoop ft ctx dlm done l w := by
  induction l generalizing done w with
  | nil => rfl
  | cons vma l induction =>
      have hmap : processMapVma ft ctx dlm vma w =
        processSyscall ft (World.mmap dlm.path dlm.ei vma) w := by
        rw [processMapVma, hctx]
        rfl
      have hunmap (w : World) : unmapDone ft ctx done w =
          done.foldl (fun w vma => (worldKernel ft dlm close vma.mapAddrInfo.call w).1) w := by
        rw [unmapDone]
        congr 1
        funext w vma
        rw [processUnmapVma, hctx]
        rfl
      simp only [mapSegments, mmapDlmLoop, worldKernel_mmap, hmap, hunmap, induction]

/-- `process_mmap_dlm_manual` with its calls is `process_mmap_dlm_manual`. -/
theorem processMmapDlmManual_world {ctx : Ctx} (hctx : ctx.serviceLoaded = false) (ld : Loading)
    (w : World) (hopen : ld.openFd = (processOpenFile ft w).2) :
    Load.processMmapDlmManual (worldKernel ft dlm fun w => (processSyscall ft id w).1) ld dlm
      (processOpenFile ft w).1 = processMmapDlmManual ft ctx dlm w := by
  rw [Load.processMmapDlmManual, processMmapDlmManual, hopen]
  dsimp only
  rw [mapSegments_world hctx]
  rfl

theorem responsePrint_os {σ : Type} (text : String) (s : Serving σ) :
    (nsbServiceResponsePrint text s).os = s.os := by
  simp only [nsbServiceResponsePrint]
  split <;> rfl

theorem processSyscall_le (effect : World → World) (w : World) :
    (processSyscall ft effect w).2 ≤ 0 := by
  simp only [processSyscall]
  split
  · exact Int.le_refl 0
  · exact Int.neg_nonpos_of_nonneg (Int.natCast_nonneg _)

section

variable {h : Host World} (hk : h.kernel = worldKernel ft dlm close)
include hk

theorem doMmap_world (fd : BitVec 32) (vma : Vma) (s : Serving World) :
    (nsbServiceCmdDoMmap h fd vma.mmapInfo s).1.os =
      (processSyscall ft (World.mmap dlm.path dlm.ei vma) s.os).1 ∧
    (nsbServiceCmdDoMmap h fd vma.mmapInfo s).2 =
      (processSyscall ft (World.mmap dlm.path dlm.ei vma) s.os).2 := by
  have hle : (processSyscall ft (World.mmap dlm.path dlm.ei vma) s.os).2 ≤ 0 := processSyscall_le ..
  simp only [nsbServiceCmdDoMmap, hk, worldKernel_mmap]
  split
  · exact ⟨responsePrint_os _ _, rfl⟩
  · exact ⟨rfl, by omega⟩

theorem doMunmap_world (vma : Vma) (s : Serving World) :
    (nsbServiceCmdDoMunmap h vma.mmapInfo.info s).1.os =
      (processSyscall ft (World.munmap vma.addr vma.length) s.os).1 := by
  have hcall : vma.mmapInfo.info = vma.mapAddrInfo := rfl
  simp only [nsbServiceCmdDoMunmap, hk, hcall, worldKernel_munmap]
  split
  · exact responsePrint_os _ _
  · rfl

theorem unmapBack_world (l : List Vma) (s : Serving World) :
    ((l.map Vma.mmapInfo).foldl (fun s mi => (nsbServiceCmdDoMunmap h mi.info s).1) s).os =
      l.foldl (fun w v => (processSyscall ft (World.munmap v.addr v.length) w).1) s.os := by
  induction l generalizing s with
  | nil => rfl
  | cons vma l induction =>
      rw [List.map_cons, List.foldl_cons, List.foldl_cons, induction, doMunmap_world hk]

/-- The second way, on a process. -/
theorem cmdMmapLoop_world {fd : BitVec 32} {done l : List Vma} {s : Serving World} :
    (cmdMmapLoop h fd (done.map Vma.mmapInfo) (l.map Vma.mmapInfo) s).1.os =
      (serviceMmapLoop ft dlm done l s.os).1 ∧
    (cmdMmapLoop h fd (done.map Vma.mmapInfo) (l.map Vma.mmapInfo) s).2 =
      (serviceMmapLoop ft dlm done l s.os).2 := by
  induction l generalizing done s with
  | nil => exact ⟨rfl, rfl⟩
  | cons vma l induction =>
      obtain ⟨hos, hret⟩ := doMmap_world hk fd vma s
      simp only [List.map_cons, cmdMmapLoop, serviceMmapLoop]
      rw [hret]
      split
      · refine ⟨?_, rfl⟩
        rw [← List.map_cons, ← List.map_dropLast, unmapBack_world hk, hos]
      · rw [← hos, ← List.map_cons]
        exact induction

/-- The handler does on a process what the request says. -/
theorem cmdMmap_world (hclose : close = id) {data : Buffer} {s : Serving World}
    (hnr : (nrMmaps data).toNat = dlm.vmas.length)
    (hinfos : mmapRequestInfos data = dlm.vmas.map Vma.mmapInfo) :
    (Plugin.nsbServiceCmdMmap h data s).1.os = (nsbServiceCmdMmap ft dlm s.os).1 ∧
    (Plugin.nsbServiceCmdMmap h data s).2 = (nsbServiceCmdMmap ft dlm s.os).2 := by
  obtain ⟨hos, hret⟩ := @cmdMmapLoop_world ft dlm close h hk (mmapRequestFd data) [] dlm.vmas s
  rw [Plugin.nsbServiceCmdMmap, nsbServiceCmdMmap, hnr, hinfos]
  split
  · exact ⟨responsePrint_os _ _, rfl⟩
  · split
    · exact ⟨responsePrint_os _ _, rfl⟩
    · rw [List.map_nil] at hos hret
      dsimp only
      split
      · exact ⟨hos, hret⟩
      next hzero =>
        have hkeep : (h.kernel (.close (mmapRequestFd data))
            (cmdMmapLoop h (mmapRequestFd data) [] (dlm.vmas.map Vma.mmapInfo) s).1.os).1 =
            (cmdMmapLoop h (mmapRequestFd data) [] (dlm.vmas.map Vma.mmapInfo) s).1.os := by
          rw [hk, hclose]
          rfl
        refine ⟨hkeep.trans hos, ?_⟩
        rw [← hret]
        exact (Decidable.not_not.mp hzero).symm

end

/-- The steps of a call of the service on a process. -/
def worldExchange (ft : Faults) (handler : World → World × Int) (w : World) : Exchange :=
  let (w, send) := processSyscall ft id w
  let (w, run) := serviceDo ft (fun w => (w, 0)) w
  let (w, ret) := handler w
  { send := send
    run := run
    recv := if ft.sys w.nsys = 0 then .message (responseBytes ret {}) else .error (ft.sys w.nsys) }

/-- The return code that is left in the buffer of the response. -/
theorem worldExchange_ret {rs : Buffer} {w : World} {ret : Int} (hstale : rsRet rs = ft.stale)
    (hret : (BitVec.ofInt 32 ret).toInt = ret) :
    rsRet ((if ft.sys w.nsys = 0 then Recv.message (responseBytes ret {})
      else .error (ft.sys w.nsys)).store rs) =
    if (processSyscall ft id w).2 < 0 then ft.stale else ret := by
  by_cases hrecv : ft.sys w.nsys = 0
  · have hsize : (processSyscall ft id w).2 = 0 := by rw [processSyscall, if_pos hrecv]
    rw [if_pos hrecv, hsize, if_neg (Int.lt_irrefl 0)]
    exact (rsRet_responseBytes ret {} rs).2.trans hret
  · have hsize : (processSyscall ft id w).2 < 0 := by
      rw [processSyscall, if_neg hrecv]
      exact Int.neg_neg_of_pos (Int.natCast_pos.mpr (Nat.pos_of_ne_zero hrecv))
    rw [if_neg hrecv, if_pos hsize]
    exact hstale

/-- A call of the service on a process ends like its steps. -/
theorem serviceRequest_exchange {handler : World → World × Int} {rs : Buffer} (w : World)
    (hstale : rsRet rs = ft.stale)
    (hret : ∀ w, (BitVec.ofInt 32 (handler w).2).toInt = (handler w).2) :
    (serviceRequest ft handler w).2 = (serviceExchange (worldExchange ft handler w) rs).2 := by
  have hsend : (worldExchange ft handler w).send = (processSyscall ft id w).2 := rfl
  have hrun : (worldExchange ft handler w).run =
      (serviceDo ft (fun w => (w, 0)) (processSyscall ft id w).1).2 := rfl
  have hcode : rsRet ((worldExchange ft handler w).recv.store rs) =
      if (processSyscall ft id
        (handler (serviceDo ft (fun w => (w, 0)) (processSyscall ft id w).1).1).1).2 < 0 then
          ft.stale
      else (handler (serviceDo ft (fun w => (w, 0)) (processSyscall ft id w).1).1).2 :=
    worldExchange_ret hstale (hret _)
  have hle : (processSyscall ft id w).2 ≤ 0 := processSyscall_le ..
  rw [← hsend] at hle
  simp only [serviceRequest]
  rw [← hsend, ← hrun, ← hcode]
  rcases serviceExchange_cases (worldExchange ft handler w) rs with ⟨hneg, heq⟩ | ⟨hpos, hnz, heq⟩ |
    ⟨hpos, hz, hneg, heq⟩ | ⟨hpos, hz, hge, heq⟩
  · rw [heq, if_pos (Int.ne_of_lt hneg)]
  · rw [heq, if_neg (by omega), if_pos hnz]
  · rw [heq, if_neg (by omega), if_neg (by omega), if_pos hneg]
  · rw [heq, if_neg (by omega), if_neg (by omega), if_neg (by omega)]

end

end Nsb
