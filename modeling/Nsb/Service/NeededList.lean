import Nsb.Patcher.Rtld
import Nsb.Service.Load

/-!
# Two ways of listing the loaded objects

The patcher reads the link map of the process from outside (`rtld_needed_array`),
or asks the service for it (`service_needed_array`).  The service walks its own
link map up to the last object, which is the service itself, and puts the
addresses into the response.

`needed_arrays_agree` says that both ways give the list of symbol tables of the
objects without the service.
-/

namespace Nsb

/-! ## The walk of the service -/

theorem nsbServiceDynamicTagVal_spec {mem : Mem} {tag : BitVec 64} {l : List Dyn} {a : Addr}
    {fuel : Nat} (hdyn : DynAt mem a l) (hfuel : l.length < fuel) :
    nsbServiceDynamicTagVal mem tag fuel a = some (dynVal tag l) := by
  induction l generalizing a fuel with
  | nil =>
      obtain ⟨fuel, rfl⟩ := Nat.exists_eq_succ_of_ne_zero (Nat.ne_of_gt hfuel)
      rw [nsbServiceDynamicTagVal]
      exact if_pos hdyn
  | cons d l induction =>
      obtain ⟨fuel, rfl⟩ := Nat.exists_eq_succ_of_ne_zero (Nat.ne_of_gt (Nat.zero_lt_of_lt hfuel))
      obtain ⟨htag, hnull, hval, hrest⟩ := hdyn
      rw [nsbServiceDynamicTagVal, htag, hval, if_neg hnull, dynVal]
      split
      · rfl
      · exact induction hrest (Nat.lt_of_succ_lt_succ hfuel)

section

variable {σ : Type} {h : Host σ}

/-- The addresses that are in the response so far. -/
def Serving.addrs (s : Serving σ) (nr : Nat) : List (BitVec 64) :=
  addressLayout.array s.rd.data 8 nr

/-- One round of the walk: an object without a symbol table ends it, any other one
adds its address or not. -/
theorem neededListLoop_step {lm : LinkMap} {l : List LinkMap} {a : Addr} {fuel nr : Nat}
    {s : Serving σ} (hat : LinkMapAt h.mem a (lm :: l)) (hfuel : lm.dyn.length < fuel + 1)
    (hnr : nr < maxBaseAddrs) :
    (lm.symtab = .error (-ENOENT) ∧
      ∃ s', neededListLoop h (fuel + 1) a nr s = some (s', -ENOENT)) ∨
    (∃ addr s' nr', lm.symtab = .ok addr ∧ nr' ≤ nr + 1 ∧
      s'.addrs nr' = s.addrs nr ++ (if lm.above then [addr] else []) ∧
      neededListLoop h (fuel + 1) a nr s =
        if wordAt h.mem (a + offNext) = 0 then none
        else if wordAt h.mem (wordAt h.mem (a + offNext) + offNext) ≠ 0 then
          neededListLoop h fuel (wordAt h.mem (a + offNext)) nr' s'
        else
          some ({ s' with rd :=
            { used := 8 + 8 * nr', data := s'.rd.data.set 0 (BitVec.ofNat 64 nr') } }, 0)) := by
  obtain ⟨hne, haddr, hdyn, -⟩ := hat
  rw [neededListLoop, if_neg hne, if_neg (Nat.ne_of_lt hnr),
    nsbServiceDynamicTagVal_spec hdyn hfuel,
    haddr, LinkMap.symtab]
  simp only [Option.bind_eq_bind, Option.bind_some]
  by_cases hnone : dynVal DT_SYMTAB lm.dyn = BitVec.ofInt 64 (-ENOENT)
  · rw [if_pos hnone, if_pos hnone]
    exact .inl ⟨rfl, _, rfl⟩
  · rw [if_neg hnone, if_neg hnone]
    right
    cases hkeep : lm.above with
    | true =>
        have hdec : decide (lm.lAddr.toInt ≤ (dynVal DT_SYMTAB lm.dyn).toInt) = true := hkeep
        rw [hdec]
        exact ⟨_, { s with rd :=
          { used := s.rd.used + 8
            data := addressLayout.write s.rd.data (8 + 8 * nr) (dynVal DT_SYMTAB lm.dyn) } },
          nr + 1, rfl, Nat.le_refl _, addressLayout.array_write _ _ _ _, rfl⟩
    | false =>
        have hdec : decide (lm.lAddr.toInt ≤ (dynVal DT_SYMTAB lm.dyn).toInt) = false := hkeep
        rw [hdec]
        exact ⟨_, s, nr, rfl, Nat.le_succ _, (List.append_nil _).symm, rfl⟩

/-- The count is stored in front of the addresses. -/
theorem neededListAddresses_counted {data : Buffer} {nr : Nat} (hnr : nr < 2 ^ 64) :
    neededListAddresses (data.set 0 (BitVec.ofNat 64 nr)) = addressLayout.array data 8 nr := by
  have hcount : ((data.set 0 (BitVec.ofNat 64 nr)).get 64 0).toNat = nr := by
    rw [Buffer.get_set _ _ _ (by decide), BitVec.toNat_ofNat, Nat.mod_eq_of_lt hnr]
  rw [neededListAddresses, RecordLayout.elems, hcount]
  refine RecordLayout.array_congr _ fun i hi _ => Buffer.put_outside (.inr ?_)
  rw [Bytes.length_leBytes]
  omega

/-- A link map that goes on has a next object. -/
theorem LinkMapAt.ne_zero {mem : Mem} {a : Addr} {l : List LinkMap} {svc : LinkMap}
    (hat : LinkMapAt mem a (l ++ [svc])) : a ≠ 0 := by
  cases l with
  | nil => exact hat.1
  | cons lm l => exact hat.1

/-- The walk of the service ends with the list of symbol tables in the response,
or with the error for an object without one. -/
theorem neededListLoop_spec {lm svc : LinkMap} {l : List LinkMap} {a : Addr} {fuel nr : Nat}
    {s : Serving σ} (hat : LinkMapAt h.mem a (lm :: (l ++ [svc])))
    (hfuel : walkFuel (lm :: l) ≤ fuel) (hmax : nr + (l.length + 1) ≤ maxBaseAddrs) :
    (neededList (lm :: l) = .error (-ENOENT) ∧
      ∃ s', neededListLoop h fuel a nr s = some (s', -ENOENT)) ∨
    (∃ addrs s', neededList (lm :: l) = .ok addrs ∧ neededListLoop h fuel a nr s = some (s', 0) ∧
      neededListAddresses s'.rd.data = s.addrs nr ++ addrs ∧
      s'.rd.used = 8 + 8 * (neededListAddresses s'.rd.data).length ∧
      (neededListAddresses s'.rd.data).length ≤ maxBaseAddrs) := by
  induction l generalizing lm a fuel nr s with
  | nil =>
      rw [walkFuel] at hfuel
      rw [List.length_nil] at hmax
      obtain ⟨fuel, rfl⟩ := Nat.exists_eq_succ_of_ne_zero (show fuel ≠ 0 by omega)
      obtain ⟨hnext, -, -, hlast⟩ : LinkMapAt h.mem (wordAt h.mem (a + offNext)) [svc] := hat.2.2.2
      obtain ⟨hsym, s', hloop⟩ | ⟨addr, s', nr', hsym, hle, haddrs, hloop⟩ :=
        @neededListLoop_step σ h lm [svc] a fuel nr s hat (by omega) (by omega)
      · exact .inl ⟨neededList_cons_error hsym [], s', hloop⟩
      · have hbound : maxBaseAddrs = 1022 := rfl
        have hnr : nr' < 2 ^ 64 := by omega
        have hend : wordAt h.mem (wordAt h.mem (a + offNext) + offNext) = 0 := hlast
        rw [if_neg hnext, if_neg (Decidable.not_not.mpr hend)] at hloop
        have hlist : neededListAddresses (s'.rd.data.set 0 (BitVec.ofNat 64 nr')) = s'.addrs nr' :=
          neededListAddresses_counted hnr
        refine .inr ⟨(if lm.above then [addr] else []) ++ [], _, neededList_cons_ok hsym [], hloop,
          ?_, ?_, ?_⟩
        · dsimp only
          rw [hlist, haddrs, List.append_nil]
        · dsimp only
          rw [hlist, Serving.addrs, RecordLayout.length_array]
        · dsimp only
          rw [hlist, Serving.addrs, RecordLayout.length_array]
          omega
  | cons lm' l induction =>
      rw [walkFuel] at hfuel
      rw [List.length_cons] at hmax
      obtain ⟨fuel, rfl⟩ := Nat.exists_eq_succ_of_ne_zero (show fuel ≠ 0 by omega)
      have hrest : LinkMapAt h.mem (wordAt h.mem (a + offNext)) (lm' :: (l ++ [svc])) := hat.2.2.2
      obtain ⟨hsym, s', hloop⟩ | ⟨addr, s', nr', hsym, hle, haddrs, hloop⟩ :=
        @neededListLoop_step σ h lm (lm' :: (l ++ [svc])) a fuel nr s hat (by omega) (by omega)
      · exact .inl ⟨neededList_cons_error hsym _, s', hloop⟩
      · rw [if_neg hrest.1, if_pos (LinkMapAt.ne_zero hrest.2.2.2)] at hloop
        rw [hloop, neededList_cons_ok hsym]
        obtain ⟨herr, s'', hrec⟩ | ⟨addrs, s'', hok, hrec, hlist, hused, hlen⟩ :=
          @induction lm' (wordAt h.mem (a + offNext)) fuel nr' s' hrest (by omega) (by omega)
        · rw [herr]
          exact .inl ⟨rfl, s'', hrec⟩
        · rw [hok]
          refine .inr ⟨_, s'', rfl, hrec, ?_, hused, hlen⟩
          rw [hlist, haddrs, List.append_assoc]

/-! ## The response -/

/-- The patcher reads what the service wrote. -/
theorem messageData_response {ret : Int} {rd : ResponseData} {rs : Buffer} {i : Nat}
    (hused : 4 + rd.used ≤ messageSize) (hi : i < rd.used) :
    messageData (rs.put 0 (received (responseBytes ret rd))) i = rd.data i := by
  have hlen := responseBytes_length ret rd
  have hget : rs.put 0 (responseBytes ret rd) (0 + (4 + i)) = (responseBytes ret rd)[4 + i] :=
    Buffer.put_inside (by omega)
  rw [received_short (by rwa [hlen])]
  show rs.put 0 (responseBytes ret rd) (4 + i) = rd.data i
  rw [← Nat.zero_add (4 + i), hget]
  simp [responseBytes, Buffer.slice]

theorem neededListAddresses_eq (data : Buffer) :
    neededListAddresses data = addressLayout.array data 8 (nrAddrs data).toNat := rfl

/-- The array that the patcher takes out of a response. -/
theorem serviceNeededArray_response {rd : ResponseData} {rs : Buffer} {ex : Exchange}
    {alloc : Nat → Bool} (halloc : ∀ n, alloc n = true)
    (hused : rd.used = 8 + 8 * (neededListAddresses rd.data).length)
    (hmax : (neededListAddresses rd.data).length ≤ maxBaseAddrs)
    (hex : serviceExchange ex rs = (rs.put 0 (received (responseBytes 0 rd)), 0)) :
    serviceNeededArray (fun _ => ex) alloc rs =
      neededResult (.ok (neededListAddresses rd.data)) := by
  have hbound : maxBaseAddrs = 1022 := rfl
  have hsize : messageSize = 8196 := rfl
  have hread {i : Nat} (hi : i < rd.used) :
      messageData (rs.put 0 (received (responseBytes 0 rd))) i = rd.data i :=
    messageData_response (by omega) hi
  have hlen : (neededListAddresses rd.data).length = (nrAddrs rd.data).toNat := by
    rw [neededListAddresses_eq, RecordLayout.length_array]
  have hcount : nrAddrs (messageData (rs.put 0 (received (responseBytes 0 rd)))) =
    nrAddrs rd.data :=
    Buffer.get_congr fun i _ hi => hread (by omega)
  have harray : addressLayout.array (messageData (rs.put 0 (received (responseBytes 0 rd)))) 8
      (nrAddrs rd.data).toNat = neededListAddresses rd.data := by
    rw [neededListAddresses_eq]
    refine RecordLayout.array_congr _ fun i _ hi => hread ?_
    have hi' : i < 8 + 8 * (nrAddrs rd.data).toNat := hi
    omega
  have height : (8 * nrAddrs rd.data).toNat = 8 * (nrAddrs rd.data).toNat := by
    rw [BitVec.toNat_mul]
    exact Nat.mod_eq_of_lt (by show 8 * _ < _; omega)
  have hint : (nrAddrs rd.data).toInt = ((nrAddrs rd.data).toNat : Int) :=
    BitVec.toInt_eq_toNat_of_lt (by omega)
  simp only [serviceNeededArray]
  rw [hex, if_neg (Decidable.not_not.mpr rfl)]
  dsimp only
  rw [hcount, halloc, if_neg (by decide), height, Nat.mul_div_cancel_left _ (by decide), harray,
    hint,
    ← hlen]
  rfl

/-- `service_needed_array` with the service in the process. -/
def neededArrayThroughService (h : Host σ) (fuel : Nat) (ld : Loading) (alloc : Nat → Bool)
    (s : Serving σ) : Option (Serving σ × Int × Option (List (BitVec 64))) := do
  let (s, ex) ← throughService h fuel ld s neededRequest
  pure (s, serviceNeededArray (fun _ => ex) alloc ld.rs)

/-- What the service does with the request, and what comes back. -/
theorem throughService_needed {fuel : Nat} {ld : Loading} {s : Serving σ} {r : Serving σ × Int}
    (hsent : 0 < ld.sent) (hr : neededListLoop h fuel h.rMap 0 { s with rd := {} } = some r) :
    throughService h fuel ld s neededRequest =
      some (r.1, { send := 4, run := 0, recv := .message (responseBytes r.2 r.1.rd) }) := by
  have hlen : neededRequest.length = 4 := requestBytes_length ..
  have hrecv : received neededRequest = neededRequest := received_short (by rw [hlen]; decide)
  have hcode : ServiceCmd.ofCode (rqCmd (ld.rq.put 0 neededRequest)) = some .neededList := by
    rw [rqCmd_received (by rw [hlen]), neededRequest, messageCmd_requestBytes]
    rfl
  have hdo : nsbDoHandleCmd h fuel (ld.rq.put 0 neededRequest) (neededRequest.length - 4)
      { s with rd := {} } = some r := (doHandleCmd_neededList hcode).trans hr
  have hrun : nsbServiceRun h fuel (.message neededRequest) ld.sent ld.rq s = _ :=
    nsbServiceRun_message h (by rw [hrecv, hlen])
  rw [hrecv, nsbHandleCommand_sent hdo hsent] at hrun
  rw [throughService, hrun, hlen]
  rfl

/-- Through the service, the list of the objects without the last one comes back. -/
theorem neededArrayThroughService_spec {l : List LinkMap} {svc : LinkMap} {fuel : Nat}
    {ld : Loading} {alloc : Nat → Bool} (s : Serving σ) (halloc : ∀ n, alloc n = true)
    (hsent : 0 < ld.sent) (hne : l ≠ []) (hlen : l.length ≤ maxBaseAddrs)
    (hat : LinkMapAt h.mem h.rMap (l ++ [svc])) (hfuel : walkFuel l ≤ fuel) :
    ∃ s', neededArrayThroughService h fuel ld alloc s = some (s', neededResult (neededList l)) := by
  obtain ⟨lm, l, rfl⟩ := List.exists_cons_of_ne_nil hne
  rw [List.length_cons] at hlen
  obtain ⟨herr, s', hloop⟩ | ⟨addrs, s', hok, hloop, hlist, hused, hmax⟩ :=
    @neededListLoop_spec σ h lm svc l h.rMap fuel 0 { s with rd := {} } hat hfuel (by omega)
  · refine ⟨s', ?_⟩
    rw [neededArrayThroughService, throughService_needed hsent hloop, herr]
    show some (s', serviceNeededArray _ alloc ld.rs) = _
    simp only [serviceNeededArray]
    have hcode : min (BitVec.ofInt 32 (-ENOENT)).toInt 0 = -ENOENT := by decide
    rw [serviceExchange_response (-ENOENT) s'.rd ld.rs (by decide), hcode,
      if_pos (show (-ENOENT : Int) ≠ 0 by decide)]
    rfl
  · have haddrs : neededListAddresses s'.rd.data = addrs := by
      rw [hlist]
      rfl
    have hex := serviceExchange_response 0 s'.rd ld.rs (show 0 ≤ (4 : Int) by decide)
    refine ⟨s', ?_⟩
    rw [neededArrayThroughService, throughService_needed hsent hloop, hok]
    show some (s', serviceNeededArray _ alloc ld.rs) = _
    rw [serviceNeededArray_response halloc hused hmax hex, haddrs]

end

/-- The two ways of listing the loaded objects give the same result. -/
theorem needed_arrays_agree {σ : Type} {ft : Faults} (hread : ∀ n, ft.read n = 0)
    {alloc : Nat → Bool} (halloc : ∀ n, alloc n = true) {w : World} {rDebugAddr : Addr}
    {h : Host σ} {ld : Loading} (hsent : 0 < ld.sent) (s : Serving σ) {l : List LinkMap}
    {svc : LinkMap} (hne : l ≠ []) (hlen : l.length ≤ 1022)
    (hat : LinkMapAt w.mem (wordAt w.mem (rDebugAddr + offRMap)) l)
    (hservice : LinkMapAt h.mem h.rMap (l ++ [svc])) (fuel : Nat) (hfuel : walkFuel l ≤ fuel) :
    ∃ w' ret arr s', rtldNeededArray ft alloc fuel rDebugAddr w = some (w', ret, arr) ∧
      neededArrayThroughService h fuel ld alloc s = some (s', ret, arr.map NeededArray.elems) ∧
      (ret = -ENOENT ↔ ∃ lm ∈ l, dynVal DT_SYMTAB lm.dyn = BitVec.ofInt 64 (-ENOENT)) := by
  obtain ⟨w', ret, arr, hrtld, hres⟩ := rtldNeededArray_spec hread halloc hne hat hfuel
  obtain ⟨s', hneeded⟩ := neededArrayThroughService_spec s halloc hsent hne hlen hservice hfuel
  rw [← hres] at hneeded
  refine ⟨w', ret, arr, s', hrtld, hneeded, ?_⟩
  rw [← neededList_error_iff]
  have hret : ret = (neededResult (neededList l)).1 := congrArg Prod.fst hres
  cases hl : neededList l with
  | error err =>
      rw [hret, hl, neededList_error hl]
      exact ⟨fun _ => rfl, fun _ => rfl⟩
  | ok addrs =>
      rw [hret, hl]
      constructor
      · intro hlen
        have hpos : (0 : Int) ≤ (addrs.length : Int) := Int.natCast_nonneg _
        have hneg : (addrs.length : Int) = -ENOENT := hlen
        rw [hneg] at hpos
        exact absurd hpos (by decide)
      · intro h
        cases h

/-- A link map of two objects, with `_r_debug` at `0x10`; `next` is `l_next` of the
second one. -/
def objectMem (next : Addr) : Mem :=
  [(0x18, 0x100), (0x100, 0x1000), (0x110, 0x200), (0x118, 0x140), (0x200, 6), (0x208, 0x1200),
    (0x140, 0x7000), (0x150, 0x240), (0x158, next), (0x240, 6), (0x248, 0x120),
    (0x300, 0x5000), (0x310, 0x200)].foldl
    (fun (mem : Mem) (e : Addr × BitVec 64) => mem.write e.1 (wordOf e.2)) fun _ => 0

def libObject : LinkMap := { lAddr := 0x1000, dyn := [⟨DT_SYMTAB, 0x1200⟩] }

/-- The loader has not relocated the dynamic section of this one. -/
def vdsoObject : LinkMap := { lAddr := 0x7000, dyn := [⟨DT_SYMTAB, 0x120⟩] }

def serviceObject : LinkMap := { lAddr := 0x5000, dyn := [⟨DT_SYMTAB, 0x1200⟩] }

theorem objectMem_alone : LinkMapAt (objectMem 0) (wordAt (objectMem 0) (0x10 + offRMap))
    [libObject, vdsoObject] := by decide

theorem objectMem_service :
    LinkMapAt (objectMem 0x300) 0x100 ([libObject, vdsoObject] ++ [serviceObject]) := by decide

/-- The process with the two objects, of which the second one is skipped, and with the
service behind them. -/
theorem libObject_agree :
    [libObject, vdsoObject].length ≤ 1022 ∧
    neededList [libObject, vdsoObject] = .ok [0x1200] ∧
    ∃ w' ret arr s',
      rtldNeededArray {} (fun _ => true) 4 0x10 { mem := objectMem 0 } = some (w', ret, arr) ∧
      neededArrayThroughService
        { kernel := recorder fun _ _ => 0, mem := objectMem 0x300, rMap := 0x100 } 4 plainLoading
        (fun _ => true) { os := [] } = some (s', ret, arr.map NeededArray.elems) ∧
      (ret = -ENOENT ↔ ∃ lm ∈ [libObject, vdsoObject],
        dynVal DT_SYMTAB lm.dyn = BitVec.ofInt 64 (-ENOENT)) :=
  ⟨by decide, rfl, needed_arrays_agree (fun _ => rfl) (fun _ => rfl) (by decide) { os := [] }
    (by simp) (by decide) objectMem_alone objectMem_service 4 (by decide)⟩

end Nsb
