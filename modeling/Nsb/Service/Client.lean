import Nsb.Service.Plugin

/-!
# Calls of the service

The functions of `patcher/service.c` that send a request to the service, run its
code in the process and receive the response.  How the three steps of such a call
end is given by an `Exchange`, which may depend on the bytes of the request.

`service_mmap_dlm`, `service_munmap_dlm` and `service_needed_array` share the
steps and differ in the request and in what they take out of the response.  They
keep the result of `nsb_service_receive_response` in an unsigned variable, so
their check for an error in it never holds.  `service_success_iff` says when this
does no harm.
-/

namespace Nsb

/-- How the steps of a call end: the result of `send`, of `service_run`, and what
`recv` does.  `send` is `-errno` when it fails. -/
structure Exchange where
  send : Int
  run : Int
  recv : Recv

/-- `nsb_service_send_request`. -/
def nsbServiceSendRequest (ex : Exchange) : Int := if ex.send < 0 then ex.send else 0

/-- What the buffer of the response holds after `recv`. -/
def Recv.store (recv : Recv) (rs : Buffer) : Buffer :=
  match recv with
  | .error _ => rs
  | .message bytes => rs.put 0 (received bytes)

/-- `nsb_service_receive_response`. -/
def nsbServiceReceiveResponse (recv : Recv) : Int :=
  match recv with
  | .error errno => -errno
  | .message bytes =>
      if (received bytes).length < 4 then -EINVAL else (received bytes).length

/-- The steps of a call, up to the check of the return code in the response.
`rs` is what the buffer of the response holds before. -/
def serviceExchange (ex : Exchange) (rs : Buffer) : Buffer × Int :=
  let err := nsbServiceSendRequest ex
  if err ≠ 0 then (rs, err)
  else if ex.run ≠ 0 then (rs, ex.run)
  else
    -- `size_t size`: a negative result becomes a large one
    let size := BitVec.ofInt 64 (nsbServiceReceiveResponse ex.recv)
    let rs := ex.recv.store rs
    if size.toNat < 0 then (rs, size.toInt)
    else if rsRet rs < 0 then (rs, rsRet rs)
    else (rs, 0)

/-- The bytes of a request with `len` bytes of data. -/
def requestBytes (cmd : ServiceCmd) (data : Buffer) (len : Nat) : List Byte :=
  Bytes.leBytes 4 cmd.code ++ data.slice 0 len

/-! ## Requests to map and unmap -/

/-- Add a record to a request, unless it is full. -/
def setInfo {α : Type} (L : RecordLayout α) (count base max : Nat) (a : α) (mrq : Buffer) :
    Buffer × Int :=
  if (mrq.get 64 count).toNat = max then (mrq, -E2BIG) else (L.push count base a mrq, 0)

/-- The record for a segment to map. -/
def Vma.mmapInfo (vma : Vma) : MmapInfo :=
  { info := ⟨vmaStart vma, vma.length⟩, prot := vma.prot, flags := vma.flags, offset := vma.offset }

/-- The record for a segment to unmap. -/
def Vma.mapAddrInfo (vma : Vma) : MapAddrInfo := ⟨vmaStart vma, vma.length⟩

/-- `service_set_map_info`. -/
def serviceSetMapInfo (vma : Vma) (mrq : Buffer) : Buffer × Int :=
  setInfo MmapInfo.layout 8 16 maxMmaps vma.mmapInfo mrq

/-- `service_set_map_addr_info`. -/
def serviceSetMapAddrInfo (vma : Vma) (mrq : Buffer) : Buffer × Int :=
  setInfo MapAddrInfo.layout 0 8 maxMunmaps vma.mapAddrInfo mrq

/-- The request of `service_mmap_dlm`. -/
def mmapRequest (dlm : DlMap) (fd : BitVec 32) : Except Int (List Byte) :=
  let (mrq, err) := Loop.each serviceSetMapInfo dlm.vmas Buffer.zeros
  if err ≠ 0 then .error err
  else .ok (requestBytes .mmap (mrq.set 0 fd) (16 + 32 * (nrMmaps (mrq.set 0 fd)).toNat))

/-- The request of `service_munmap_dlm`. -/
def munmapRequest (dlm : DlMap) : Except Int (List Byte) :=
  let (mrq, err) := Loop.each serviceSetMapAddrInfo dlm.vmas Buffer.zeros
  if err ≠ 0 then .error err
  else .ok (requestBytes .munmap mrq (8 + 16 * (nrMunmaps mrq).toNat))

/-- `service_mmap_dlm`. -/
def Client.serviceMmapDlm (ex : List Byte → Exchange) (dlm : DlMap) (fd : BitVec 32) (rs : Buffer) :
    Int :=
  match mmapRequest dlm fd with
  | .error err => err
  | .ok rq => (serviceExchange (ex rq) rs).2

/-- `service_munmap_dlm`. -/
def Client.serviceMunmapDlm (ex : List Byte → Exchange) (dlm : DlMap) (rs : Buffer) : Int :=
  match munmapRequest dlm with
  | .error err => err
  | .ok rq => (serviceExchange (ex rq) rs).2

/-! ## The request for the loaded objects -/

/-- The request of `service_needed_array`. -/
def neededRequest : List Byte := requestBytes .neededList Buffer.zeros 0

/-- `service_needed_array`: the return value and `*needed_array`.  `alloc` says
whether `xmalloc` succeeds for a size.  The size of the array is computed in 64
bits. -/
def serviceNeededArray (ex : List Byte → Exchange) (alloc : Nat → Bool) (rs : Buffer) :
    Int × Option (List (BitVec 64)) :=
  let (rs, err) := serviceExchange (ex neededRequest) rs
  if err ≠ 0 then (err, none)
  else
    let arraySize := 8 * nrAddrs (messageData rs)
    if ¬ alloc arraySize.toNat then (-ENOMEM, none)
    else
      ((nrAddrs (messageData rs)).toInt,
        some (addressLayout.array (messageData rs) 8 (arraySize.toNat / 8)))

/-! ## Requests that fit -/

section

variable {α β : Type} {L : RecordLayout α} {count base max : Nat} {f : β → α} {l : List β}
  {mrq : Buffer}

/-- A series of records that fits: they are in the request, in order. -/
theorem setInfo_each_ok (hcount : count + 8 ≤ base) (hmax : max < 2 ^ 64)
    (hfit : (mrq.get 64 count).toNat + l.length ≤ max) :
    ∃ mrq', Loop.each (fun b => setInfo L count base max (f b)) l mrq = (mrq', 0) ∧
      L.elems mrq' count base = L.elems mrq count base ++ l.map f ∧
      (mrq'.get 64 count).toNat = (mrq.get 64 count).toNat + l.length := by
  induction l generalizing mrq with
  | nil => exact ⟨mrq, rfl, (List.append_nil _).symm, (Nat.add_zero _).symm⟩
  | cons b l induction =>
      rw [List.length_cons] at hfit
      have hstep : setInfo L count base max (f b) mrq = (L.push count base (f b) mrq, 0) :=
        if_neg (by omega)
      have hnr : ((L.push count base (f b) mrq).get 64 count).toNat =
        (mrq.get 64 count).toNat + 1 :=
        L.push_count_toNat _ (by omega)
      obtain ⟨mrq', heach, helems, hnr'⟩ := @induction (L.push count base (f b) mrq) (by omega)
      refine ⟨mrq', ?_, ?_, ?_⟩
      · rw [Loop.each_cons_ok (by rw [hstep]), hstep]
        exact heach
      · rw [helems, L.elems_push _ hcount (by omega), List.append_assoc]
        rfl
      · rw [hnr', hnr, List.length_cons]
        omega

/-- A series that does not fit. -/
theorem setInfo_each_full (hmax : max < 2 ^ 64) (hle : (mrq.get 64 count).toNat ≤ max)
    (hfull : max < (mrq.get 64 count).toNat + l.length) :
    (Loop.each (fun b => setInfo L count base max (f b)) l mrq).2 = -E2BIG := by
  induction l generalizing mrq with
  | nil =>
      rw [List.length_nil] at hfull
      omega
  | cons b l induction =>
      rw [List.length_cons] at hfull
      by_cases hfit : (mrq.get 64 count).toNat = max
      · have hstep : setInfo L count base max (f b) mrq = (mrq, -E2BIG) := if_pos hfit
        have hstop : (setInfo L count base max (f b) mrq).2 ≠ 0 := by
          rw [hstep]
          exact (by decide : (-E2BIG : Int) ≠ 0)
        rw [Loop.each_cons_stop (f := fun b => setInfo L count base max (f b)) hstop, hstep]
      · have hstep : setInfo L count base max (f b) mrq = (L.push count base (f b) mrq, 0) :=
          if_neg hfit
        have hnr : ((L.push count base (f b) mrq).get 64 count).toNat =
            (mrq.get 64 count).toNat + 1 := L.push_count_toNat _ (by omega)
        rw [Loop.each_cons_ok (by rw [hstep]), hstep]
        exact @induction (L.push count base (f b) mrq) (by omega) (by omega)

end

theorem nrMmaps_set_fd (mrq : Buffer) (fd : BitVec 32) : nrMmaps (mrq.set 0 fd) = nrMmaps mrq :=
  Buffer.get_set_apart (.inr (by decide))

theorem mmapRequestInfos_set_fd (mrq : Buffer) (fd : BitVec 32) :
    mmapRequestInfos (mrq.set 0 fd) = mmapRequestInfos mrq := by
  have hkeep : ∀ i, 8 ≤ i → mrq.set 0 fd i = mrq i := fun i hi =>
    Buffer.put_outside (.inr (by rw [Bytes.length_leBytes]; omega))
  exact RecordLayout.elems_congr _ (fun i hi _ => hkeep i hi) fun i hi _ => hkeep i (by omega)

theorem zeros_get (w off : Nat) : Buffer.zeros.get w off = 0 := by
  rw [Buffer.get, Buffer.num_zeros]
  rfl

/-- What the request of `service_mmap_dlm` says. -/
theorem mmapRequest_ok (fd : BitVec 32) {dlm : DlMap} (hfit : dlm.vmas.length ≤ maxMmaps) :
    ∃ mrq, mmapRequest dlm fd = .ok (requestBytes .mmap mrq (16 + 32 * dlm.vmas.length)) ∧
      mmapRequestFd mrq = fd ∧ (nrMmaps mrq).toNat = dlm.vmas.length ∧
      mmapRequestInfos mrq = dlm.vmas.map Vma.mmapInfo := by
  obtain ⟨mrq, heach, helems, hnr⟩ :=
    @setInfo_each_ok _ Vma MmapInfo.layout 8 16 maxMmaps Vma.mmapInfo
    dlm.vmas Buffer.zeros (by decide) (by decide) (by simpa [zeros_get] using hfit)
  have hcount : (nrMmaps mrq).toNat = dlm.vmas.length := by
    rw [nrMmaps, hnr, zeros_get]
    exact Nat.zero_add _
  have hinfos : mmapRequestInfos mrq = dlm.vmas.map Vma.mmapInfo := by
    rw [mmapRequestInfos, helems, RecordLayout.elems, zeros_get]
    rfl
  have heach' : Loop.each serviceSetMapInfo dlm.vmas Buffer.zeros = (mrq, 0) := heach
  refine ⟨mrq.set 0 fd, ?_, Buffer.get_set _ _ _ (by decide), ?_, ?_⟩
  · rw [mmapRequest, heach']
    dsimp only
    rw [if_neg (by decide), nrMmaps_set_fd, hcount]
  · rw [nrMmaps_set_fd, hcount]
  · rw [mmapRequestInfos_set_fd, hinfos]

theorem mmapRequest_full {dlm : DlMap} {fd : BitVec 32} (hfull : maxMmaps < dlm.vmas.length) :
    mmapRequest dlm fd = .error (-E2BIG) := by
  have heach : (Loop.each serviceSetMapInfo dlm.vmas Buffer.zeros).2 = -E2BIG :=
    setInfo_each_full (by decide) (by simp [zeros_get]) (by simpa [zeros_get] using hfull)
  simp only [mmapRequest]
  rw [heach, if_pos (by decide)]

/-- What the request of `service_munmap_dlm` says. -/
theorem munmapRequest_ok {dlm : DlMap} (hfit : dlm.vmas.length ≤ maxMunmaps) :
    ∃ mrq, munmapRequest dlm = .ok (requestBytes .munmap mrq (8 + 16 * dlm.vmas.length)) ∧
      (nrMunmaps mrq).toNat = dlm.vmas.length ∧
      munmapRequestInfos mrq = dlm.vmas.map Vma.mapAddrInfo := by
  obtain ⟨mrq, heach, helems, hnr⟩ := @setInfo_each_ok _ Vma MapAddrInfo.layout 0 8 maxMunmaps
    Vma.mapAddrInfo dlm.vmas Buffer.zeros (by decide) (by decide) (by simpa [zeros_get] using hfit)
  have hcount : (nrMunmaps mrq).toNat = dlm.vmas.length := by
    rw [nrMunmaps, hnr, zeros_get]
    exact Nat.zero_add _
  have heach' : Loop.each serviceSetMapAddrInfo dlm.vmas Buffer.zeros = (mrq, 0) := heach
  refine ⟨mrq, ?_, hcount, ?_⟩
  · rw [munmapRequest, heach']
    dsimp only
    rw [if_neg (by decide), hcount]
  · rw [munmapRequestInfos, helems, RecordLayout.elems, zeros_get]
    rfl

theorem munmapRequest_full {dlm : DlMap} (hfull : maxMunmaps < dlm.vmas.length) :
    munmapRequest dlm = .error (-E2BIG) := by
  have heach : (Loop.each serviceSetMapAddrInfo dlm.vmas Buffer.zeros).2 = -E2BIG :=
    setInfo_each_full (by decide) (by simp [zeros_get]) (by simpa [zeros_get] using hfull)
  simp only [munmapRequest]
  rw [heach, if_pos (by decide)]

/-! ## What a result says -/

/-- `recv` got a return code. -/
def Recv.Full : Recv → Prop
  | .error _ => False
  | .message bytes => 4 ≤ (received bytes).length

/-- A response with a return code that is no error was received. -/
def Exchange.Answered (ex : Exchange) : Prop :=
  0 ≤ ex.send ∧ ex.run = 0 ∧
    ∃ bytes, ex.recv = .message bytes ∧ 4 ≤ (received bytes).length ∧
      0 ≤ rsRet (Buffer.zeros.put 0 (received bytes))

/-- The service is not run to a positive code, and a receive that fails leaves an
error in the buffer, or something else in it that is `caught`. -/
def Exchange.Reliable (ex : Exchange) (rs : Buffer) (caught : Prop) : Prop :=
  0 ≤ ex.send → ex.run ≤ 0 ∧
    (ex.run = 0 → ¬ ex.recv.Full → rsRet (ex.recv.store rs) < 0 ∨ caught)

section

variable {ex : Exchange} {rs : Buffer}

/-- A return code that was received does not depend on the buffer. -/
theorem rsRet_received {bytes : List Byte} {rs rs' : Buffer} (h : 4 ≤ (received bytes).length) :
    rsRet (rs.put 0 (received bytes)) = rsRet (rs'.put 0 (received bytes)) := by
  rw [rsRet, rsRet, Buffer.get_congr fun i _ hi => Buffer.put_front_congr (by omega)]

theorem answered_iff (rs : Buffer) (hsend : 0 ≤ ex.send) (hrun : ex.run = 0) :
    ex.Answered ↔ ex.recv.Full ∧ 0 ≤ rsRet (ex.recv.store rs) := by
  rw [Exchange.Answered]
  cases hrecv : ex.recv with
  | error errno => simp [Recv.Full]
  | message bytes =>
      constructor
      · rintro ⟨-, -, _, heq, hfull, hret⟩
        cases heq
        exact ⟨hfull, rsRet_received hfull ▸ hret⟩
      · rintro ⟨hfull, hret⟩
        exact ⟨hsend, hrun, bytes, rfl, hfull, rsRet_received hfull ▸ hret⟩

/-- The ways in which the steps of a call end. -/
theorem serviceExchange_cases (ex : Exchange) (rs : Buffer) :
    (ex.send < 0 ∧ serviceExchange ex rs = (rs, ex.send)) ∨
    (0 ≤ ex.send ∧ ex.run ≠ 0 ∧ serviceExchange ex rs = (rs, ex.run)) ∨
    (0 ≤ ex.send ∧ ex.run = 0 ∧ rsRet (ex.recv.store rs) < 0 ∧
      serviceExchange ex rs = (ex.recv.store rs, rsRet (ex.recv.store rs))) ∨
    (0 ≤ ex.send ∧ ex.run = 0 ∧ 0 ≤ rsRet (ex.recv.store rs) ∧
      serviceExchange ex rs = (ex.recv.store rs, 0)) := by
  simp only [serviceExchange, nsbServiceSendRequest]
  by_cases hsend : ex.send < 0
  · rw [if_pos hsend, if_pos (by omega)]
    exact .inl ⟨hsend, rfl⟩
  · rw [if_neg hsend, if_neg (by decide)]
    by_cases hrun : ex.run = 0
    · rw [if_neg (by simpa using hrun), if_neg (Nat.not_lt_zero _)]
      by_cases hret : rsRet (ex.recv.store rs) < 0
      · rw [if_pos hret]
        exact .inr (.inr (.inl ⟨Int.not_lt.mp hsend, hrun, hret, rfl⟩))
      · rw [if_neg hret]
        exact .inr (.inr (.inr ⟨Int.not_lt.mp hsend, hrun, Int.not_lt.mp hret, rfl⟩))
    · rw [if_pos hrun]
      exact .inr (.inl ⟨Int.not_lt.mp hsend, hrun, rfl⟩)

/-- Steps that end well leave the response in the buffer. -/
theorem serviceExchange_store (h : (serviceExchange ex rs).2 = 0) :
    (serviceExchange ex rs).1 = ex.recv.store rs := by
  rcases serviceExchange_cases ex rs with ⟨hsend, heq⟩ | ⟨-, hrun, heq⟩ | ⟨-, -, -, heq⟩ |
    ⟨-, -, -, heq⟩
  · rw [heq] at h
    exact absurd h (Int.ne_of_lt hsend)
  · rw [heq] at h
    exact absurd h hrun
  · rw [heq]
  · rw [heq]

/-- A call passes on what its steps end with, and fails later only when the answer
is `caught`.  It reports truly when the steps are reliable. -/
theorem report_iff {ret : Int} {caught : Prop}
    (hstop : (serviceExchange ex rs).2 ≠ 0 → ret = (serviceExchange ex rs).2)
    (hend : (serviceExchange ex rs).2 = 0 → (ret < 0 ↔ caught)) :
    ((0 ≤ ret ∧ ex.Answered) ∨ ret < 0) ↔ ex.Reliable rs caught := by
  rcases serviceExchange_cases ex rs with ⟨hsend, heq⟩ | ⟨hsend, hrun, heq⟩ |
    ⟨hsend, hrun, hret, heq⟩ | ⟨hsend, hrun, hret, heq⟩
  · rw [heq] at hstop
    rw [hstop (Int.ne_of_lt hsend)]
    exact ⟨fun _ h => absurd hsend (Int.not_lt.mpr h), fun _ => .inr hsend⟩
  · rw [heq] at hstop
    rw [hstop hrun]
    constructor
    · rintro (⟨-, -, h0, -⟩ | hneg) -
      · exact absurd h0 hrun
      · exact ⟨Int.le_of_lt hneg, fun h0 => absurd h0 hrun⟩
    · intro hrel
      exact .inr (lt_of_le_of_ne (hrel hsend).1 hrun)
  · rw [heq] at hstop
    rw [hstop (Int.ne_of_lt hret)]
    exact ⟨fun _ _ => ⟨Int.le_of_eq hrun, fun _ _ => .inl hret⟩, fun _ => .inr hret⟩
  · rw [heq] at hend
    rw [answered_iff rs hsend hrun, ← Int.not_lt, hend rfl]
    constructor
    · rintro h -
      exact ⟨Int.le_of_eq hrun, fun _ hn => .inr (h.resolve_left fun hf => hn hf.2.1)⟩
    · intro hrel
      by_cases hc : caught
      · exact .inr hc
      · refine .inl ⟨hc, Classical.byContradiction fun hn => ?_, hret⟩
        rcases (hrel hsend).2 hrun hn with hneg | hcaught
        · exact absurd hret (Int.not_le.mpr hneg)
        · exact hc hcaught

/-- The steps of a call that was answered do not end with a positive code. -/
theorem exchange_le_of_answered (h : ex.Answered) : (serviceExchange ex rs).2 ≤ 0 := by
  rcases serviceExchange_cases ex rs with ⟨hsend, heq⟩ | ⟨-, hrun, -⟩ | ⟨-, -, hret, heq⟩ |
    ⟨-, -, -, heq⟩
  · exact absurd hsend (Int.not_lt.mpr h.1)
  · exact absurd h.2.1 hrun
  · rw [heq]
    exact Int.le_of_lt hret
  · rw [heq]

/-- A call without a result of its own reports truly when the steps are reliable. -/
theorem exchange_report_iff (ex : Exchange) (rs : Buffer) :
    (((serviceExchange ex rs).2 = 0 ∧ ex.Answered) ∨ (serviceExchange ex rs).2 < 0) ↔
      ex.Reliable rs False := by
  rw [← report_iff (fun _ => rfl) fun h0 => by rw [h0]; simp]
  constructor
  · rintro (⟨h0, hans⟩ | hneg)
    · exact .inl ⟨Int.le_of_eq h0.symm, hans⟩
    · exact .inr hneg
  · rintro (⟨hle, hans⟩ | hneg)
    · exact .inl ⟨Int.le_antisymm (exchange_le_of_answered hans) hle, hans⟩
    · exact .inr hneg

/-- What makes a bad answer to `service_needed_array` fail after all: there is no
memory for the array, or its length is negative. -/
def CaughtLater (alloc : Nat → Bool) (rs : Buffer) : Prop :=
  alloc (8 * nrAddrs (messageData rs)).toNat = false ∨ (nrAddrs (messageData rs)).toInt < 0

theorem needed_report_iff (ex : Exchange) (alloc : Nat → Bool) (rs : Buffer) :
    ((0 ≤ (serviceNeededArray (fun _ => ex) alloc rs).1 ∧ ex.Answered) ∨
      (serviceNeededArray (fun _ => ex) alloc rs).1 < 0) ↔
    ex.Reliable rs (CaughtLater alloc (ex.recv.store rs)) := by
  have hstop : (serviceExchange ex rs).2 ≠ 0 →
      (serviceNeededArray (fun _ => ex) alloc rs).1 = (serviceExchange ex rs).2 := by
    intro hne
    simp only [serviceNeededArray]
    rw [if_pos hne]
  have hend : (serviceExchange ex rs).2 = 0 →
      ((serviceNeededArray (fun _ => ex) alloc rs).1 < 0 ↔
        CaughtLater alloc (ex.recv.store rs)) := by
    intro h0
    rw [← serviceExchange_store h0]
    simp only [serviceNeededArray, CaughtLater]
    rw [if_neg (not_not_intro h0)]
    cases alloc (8 * nrAddrs (messageData (serviceExchange ex rs).1)).toNat with
    | false => simp [ENOMEM]
    | true => simp
  exact report_iff hstop hend

/-- A success that a service call reports was answered, and every other result is
a negative error, exactly when the steps of the call are reliable. -/
theorem service_success_iff (ex : Exchange) (dlm : DlMap) (fd : BitVec 32) (alloc : Nat → Bool)
    (rs : Buffer) :
    (((Client.serviceMmapDlm (fun _ => ex) dlm fd rs = 0 ∧ ex.Answered) ∨
        Client.serviceMmapDlm (fun _ => ex) dlm fd rs < 0) ↔
      (dlm.vmas.length ≤ maxMmaps → ex.Reliable rs False)) ∧
    (((Client.serviceMunmapDlm (fun _ => ex) dlm rs = 0 ∧ ex.Answered) ∨
        Client.serviceMunmapDlm (fun _ => ex) dlm rs < 0) ↔
      (dlm.vmas.length ≤ maxMunmaps → ex.Reliable rs False)) ∧
    (((0 ≤ (serviceNeededArray (fun _ => ex) alloc rs).1 ∧ ex.Answered) ∨
        (serviceNeededArray (fun _ => ex) alloc rs).1 < 0) ↔
      ex.Reliable rs (CaughtLater alloc (ex.recv.store rs))) := by
  refine ⟨?_, ?_, needed_report_iff ex alloc rs⟩
  · by_cases hfit : dlm.vmas.length ≤ maxMmaps
    · obtain ⟨mrq, hrq, -⟩ := mmapRequest_ok fd hfit
      rw [Client.serviceMmapDlm, hrq]
      exact (exchange_report_iff ex rs).trans ⟨fun h _ => h, fun h => h hfit⟩
    · rw [Client.serviceMmapDlm, mmapRequest_full (Nat.not_le.mp hfit)]
      exact ⟨fun _ h => absurd h hfit, fun _ => .inr (show (-E2BIG : Int) < 0 by decide)⟩
  · by_cases hfit : dlm.vmas.length ≤ maxMunmaps
    · obtain ⟨mrq, hrq, -⟩ := munmapRequest_ok hfit
      rw [Client.serviceMunmapDlm, hrq]
      exact (exchange_report_iff ex rs).trans ⟨fun h _ => h, fun h => h hfit⟩
    · rw [Client.serviceMunmapDlm, munmapRequest_full (Nat.not_le.mp hfit)]
      exact ⟨fun _ h => absurd h hfit, fun _ => .inr (show (-E2BIG : Int) < 0 by decide)⟩

end

/-- A patch of two segments. -/
def twoSegments : DlMap :=
  { id := 1, path := some "/tmp/patch.so", ei := {}
    vmas := [{ addr := 0x7f0000, length := 0x1000, prot := 5, flags := 18 },
      { addr := 0x7f1000, length := 0x1000, prot := 3, flags := 18, offset := 0x1000 }] }

/-- The request is sent and the service runs, but the connection is reset before
the response is there. -/
def resetExchange : Exchange := { send := 84, run := 0, recv := .error 104 }

/-- Over a buffer of zeros this is reported as a success. -/
theorem reset_reported_as_success :
    Client.serviceMmapDlm (fun _ => resetExchange) twoSegments 3 Buffer.zeros = 0 ∧
    ¬ ((Client.serviceMmapDlm (fun _ => resetExchange) twoSegments 3 Buffer.zeros = 0 ∧
        resetExchange.Answered) ∨
      Client.serviceMmapDlm (fun _ => resetExchange) twoSegments 3 Buffer.zeros < 0) := by
  obtain ⟨mrq, hrq, -⟩ := mmapRequest_ok 3 (show twoSegments.vmas.length ≤ maxMmaps by decide)
  have hret : Client.serviceMmapDlm (fun _ => resetExchange) twoSegments 3 Buffer.zeros = 0 := by
    rw [Client.serviceMmapDlm, hrq]
    show (serviceExchange resetExchange Buffer.zeros).2 = 0
    decide
  rw [hret]
  refine ⟨rfl, ?_⟩
  rintro (⟨-, -, -, _, hrecv, -⟩ | hneg)
  · cases hrecv
  · exact absurd hneg (Int.lt_irrefl 0)

end Nsb
