import Nsb.Lib.Machine
import Nsb.Patcher.X86

/-!
# Remote calls

`x86_64_call` of `patcher/x86_64.c` puts together the code that nsb runs in the
process for `dlopen`, `dlclose` and every call of the service: six `MOV`s for the
arguments, a `CALL` and an `INT3`.  The code is one static buffer, which keeps
what earlier calls stored there, failing ones too.

`Template` is what no call changes.  `stub_calls_callee` says what the processor
does with the bytes after any sequence of calls.
-/

namespace Nsb

/-- `struct mov_reg`. -/
structure MovReg where
  pre : Byte
  reg : Byte
  addr : Word
deriving DecidableEq

/-- `struct x86_64_call_cmd`. -/
structure X8664CallCmd where
  movR9 : MovReg
  movR8 : MovReg
  movRcx : MovReg
  movRdx : MovReg
  movRsi : MovReg
  movRdi : MovReg
  call : Vector Byte 5
  int3 : Byte
deriving DecidableEq

/-- The initializer of `blob`. -/
def callBlob : X8664CallCmd where
  movR9 := ⟨0x49, 0xb9, Vector.replicate 8 0⟩
  movR8 := ⟨0x49, 0xb8, Vector.replicate 8 0⟩
  movRcx := ⟨0x48, 0xb9, Vector.replicate 8 0⟩
  movRdx := ⟨0x48, 0xba, Vector.replicate 8 0⟩
  movRsi := ⟨0x48, 0xbe, Vector.replicate 8 0⟩
  movRdi := ⟨0x48, 0xbf, Vector.replicate 8 0⟩
  call := #v[0xe8, 0, 0, 0, 0]
  int3 := 0xcc

def MovReg.bytes (r : MovReg) : List Byte := r.pre :: r.reg :: r.addr.toList

/-- The bytes of the buffer. -/
def X8664CallCmd.bytes (blob : X8664CallCmd) : List Byte :=
  ([blob.movR9, blob.movR8, blob.movRcx, blob.movRdx, blob.movRsi, blob.movRdi].flatMap
    MovReg.bytes ++ blob.call.toList) ++ [blob.int3]

/-- The arguments of `x86_64_call`. -/
structure CallArgs where
  call : Addr
  where_ : Addr
  arg0 : BitVec 64
  arg1 : BitVec 64
  arg2 : BitVec 64
  arg3 : BitVec 64
  arg4 : BitVec 64
  arg5 : BitVec 64

/-- `offsetof(struct x86_64_call_cmd, call)`. -/
def callOffset : Nat := 60

/-- `x86_64_call`: the buffer afterwards, which `*code` points to on success, and
the return value. -/
def x8664Call (a : CallArgs) (blob : X8664CallCmd) : X8664CallCmd × Int :=
  let blob := { blob with
    movR9 := { blob.movR9 with addr := wordOf a.arg5 }
    movR8 := { blob.movR8 with addr := wordOf a.arg4 }
    movRcx := { blob.movRcx with addr := wordOf a.arg3 }
    movRdx := { blob.movRdx with addr := wordOf a.arg2 }
    movRsi := { blob.movRsi with addr := wordOf a.arg1 }
    movRdi := { blob.movRdi with addr := wordOf a.arg0 } }
  let (call, size) :=
    x86ModifyInstruction blob.call 1 4 (a.where_ + BitVec.ofNat 64 callOffset) a.call
  let blob := { blob with call := call }
  if size < 0 then (blob, size) else (blob, blob.bytes.length)

/-- `x86_64_dlopen`. -/
def x8664Dlopen (dlopenAddr nameAddr where_ : Addr) : X8664CallCmd → X8664CallCmd × Int :=
  x8664Call ⟨dlopenAddr, where_, nameAddr, 1, 0, 0, 0, 0⟩

/-- `x86_64_dlclose`. -/
def x8664Dlclose (dlopenAddr handle where_ : Addr) : X8664CallCmd → X8664CallCmd × Int :=
  x8664Call ⟨dlopenAddr, where_, handle, 0, 0, 0, 0, 0⟩

/-- A call of one of the three functions. -/
inductive StubCall where
  | call (a : CallArgs)
  | dlopen (dlopenAddr nameAddr where_ : Addr)
  | dlclose (dlopenAddr handle where_ : Addr)

/-- The call on the buffer. -/
def StubCall.make : StubCall → X8664CallCmd → X8664CallCmd × Int
  | .call a => x8664Call a
  | .dlopen dlopenAddr nameAddr where_ => x8664Dlopen dlopenAddr nameAddr where_
  | .dlclose dlopenAddr handle where_ => x8664Dlclose dlopenAddr handle where_

/-- What ends up in the code: the callee, the place and the six arguments. -/
def StubCall.args : StubCall → CallArgs
  | .call a => a
  | .dlopen dlopenAddr nameAddr where_ => ⟨dlopenAddr, where_, nameAddr, 1, 0, 0, 0, 0⟩
  | .dlclose dlopenAddr handle where_ => ⟨dlopenAddr, where_, handle, 0, 0, 0, 0, 0⟩

/-- The buffer after a sequence of calls. -/
def blobAfter (calls : List StubCall) : X8664CallCmd :=
  calls.foldl (fun blob c => (c.make blob).1) callBlob

/-! ## What no call changes -/

/-- The opcodes of the buffer. -/
structure Template (blob : X8664CallCmd) : Prop where
  movR9 : blob.movR9.pre = 0x49 ∧ blob.movR9.reg = 0xb9
  movR8 : blob.movR8.pre = 0x49 ∧ blob.movR8.reg = 0xb8
  movRcx : blob.movRcx.pre = 0x48 ∧ blob.movRcx.reg = 0xb9
  movRdx : blob.movRdx.pre = 0x48 ∧ blob.movRdx.reg = 0xba
  movRsi : blob.movRsi.pre = 0x48 ∧ blob.movRsi.reg = 0xbe
  movRdi : blob.movRdi.pre = 0x48 ∧ blob.movRdi.reg = 0xbf
  call : blob.call[0] = 0xe8
  int3 : blob.int3 = 0xcc

theorem callBlob_template : Template callBlob := by
  constructor <;> decide

/-- The distance that the `CALL` has to bridge. -/
def callDistance (a : CallArgs) : BitVec 64 := a.call - (a.where_ + 60 + 5)

/-- The `CALL` of the buffer afterwards. -/
theorem modifyCall_ok {buf : Vector Byte 5} (hop : buf[0] = 0xe8) {cur tgt : Addr}
    (h : Encodable cur tgt) :
    ∃ call, x86ModifyInstruction buf 1 4 cur tgt = (call, 5) ∧ call[0] = 0xe8 ∧
      call.toList = 0xe8 :: Machine.bytes32 ((tgt - (cur + 5)).setWidth 32) := by
  unfold x86ModifyInstruction
  dsimp only
  rw [ipGenOffset_ok h]
  have hget : buf.get 0 = 0xe8 := hop
  refine ⟨_, rfl, ?_, ?_⟩
  · rw [Vector.getElem_ofFn]
    exact hop
  · simp [Vector.toList_ofFn, List.ofFn_succ, Machine.bytes32, hget]

theorem modifyCall_error {buf : Vector Byte 5} {cur tgt : Addr} (h : ¬ Encodable cur tgt) :
    x86ModifyInstruction buf 1 4 cur tgt = (buf, -1) := by
  unfold x86ModifyInstruction
  dsimp only
  rw [ipGenOffset_error h]

/-- The `MOV`s of a call. -/
def callMovs (a : CallArgs) : List Machine.Mov :=
  [⟨0x49, 0xb9, a.arg5⟩, ⟨0x49, 0xb8, a.arg4⟩, ⟨0x48, 0xb9, a.arg3⟩, ⟨0x48, 0xba, a.arg2⟩,
    ⟨0x48, 0xbe, a.arg1⟩, ⟨0x48, 0xbf, a.arg0⟩]

/-- The code of a call. -/
def callCode (a : CallArgs) : List Byte :=
  (callMovs a).flatMap Machine.Mov.bytes ++
    (0xe8 :: Machine.bytes32 ((callDistance a).setWidth 32)) ++ [0xcc]

theorem length_callCode (a : CallArgs) : (callCode a).length = 66 := by
  simp [callCode, callMovs, Machine.Mov.length_bytes, Machine.bytes32]

/-- A callee in reach: the buffer is the code of the call. -/
theorem x8664Call_ok {a : CallArgs} {blob : X8664CallCmd} (ht : Template blob)
    (h : Encodable (a.where_ + 60) a.call) :
    (x8664Call a blob).2 = 66 ∧ (x8664Call a blob).1.bytes = callCode a ∧
      Template (x8664Call a blob).1 := by
  obtain ⟨call, hmod, hcall0, hcall⟩ := modifyCall_ok ht.call h
  have hmod' : x86ModifyInstruction blob.call 1 4 (a.where_ + BitVec.ofNat 64 callOffset) a.call =
      (call, 5) := hmod
  simp only [x8664Call]
  rw [hmod']
  have hbytes : X8664CallCmd.bytes { blob with
      movR9 := { blob.movR9 with addr := wordOf a.arg5 }
      movR8 := { blob.movR8 with addr := wordOf a.arg4 }
      movRcx := { blob.movRcx with addr := wordOf a.arg3 }
      movRdx := { blob.movRdx with addr := wordOf a.arg2 }
      movRsi := { blob.movRsi with addr := wordOf a.arg1 }
      movRdi := { blob.movRdi with addr := wordOf a.arg0 }
      call := call } = callCode a := by
    simp only [X8664CallCmd.bytes, MovReg.bytes, List.flatMap_cons, List.flatMap_nil, hcall,
      ht.movR9, ht.movR8, ht.movRcx, ht.movRdx, ht.movRsi, ht.movRdi, ht.int3]
    rfl
  refine ⟨?_, hbytes, ?_⟩
  · show ((X8664CallCmd.bytes _).length : Int) = 66
    rw [hbytes, length_callCode]
    rfl
  · exact ⟨ht.movR9, ht.movR8, ht.movRcx, ht.movRdx, ht.movRsi, ht.movRdi, hcall0, ht.int3⟩

/-- A callee out of reach: the arguments are stored all the same. -/
theorem x8664Call_error {a : CallArgs} {blob : X8664CallCmd} (ht : Template blob)
    (h : ¬ Encodable (a.where_ + 60) a.call) :
    (x8664Call a blob).2 = -1 ∧ Template (x8664Call a blob).1 := by
  have hmod : x86ModifyInstruction blob.call 1 4 (a.where_ + BitVec.ofNat 64 callOffset) a.call =
      (blob.call, -1) := modifyCall_error h
  simp only [x8664Call]
  rw [hmod]
  exact ⟨rfl, ht.movR9, ht.movR8, ht.movRcx, ht.movRdx, ht.movRsi, ht.movRdi, ht.call, ht.int3⟩

theorem StubCall.make_eq (c : StubCall) (blob : X8664CallCmd) :
    c.make blob = x8664Call c.args blob := by
  cases c with
  | call a => rfl
  | dlopen dlopenAddr nameAddr where_ => rfl
  | dlclose dlopenAddr handle where_ => rfl

theorem StubCall.make_template (c : StubCall) {blob : X8664CallCmd} (ht : Template blob) :
    Template (c.make blob).1 := by
  rw [c.make_eq]
  by_cases h : Encodable (c.args.where_ + 60) c.args.call
  · exact (x8664Call_ok ht h).2.2
  · exact (x8664Call_error ht h).2

/-- The opcodes are there after every sequence of calls. -/
theorem blobAfter_template (calls : List StubCall) : Template (blobAfter calls) :=
  List.foldlRecOn calls _ callBlob_template fun _ ht c _ => c.make_template ht

/-! ## Running the code -/

/-- The processor has got from `s` to the callee, and will return to `ret`. -/
structure AtCallee (a : CallArgs) (ret : Addr) (s s' : Machine.State) : Prop where
  rip : s'.rip = a.call
  rdi : s'.regs Machine.rdi = a.arg0
  rsi : s'.regs Machine.rsi = a.arg1
  rdx : s'.regs Machine.rdx = a.arg2
  rcx : s'.regs Machine.rcx = a.arg3
  r8 : s'.regs Machine.r8 = a.arg4
  r9 : s'.regs Machine.r9 = a.arg5
  rsp : s'.regs Machine.rsp = s.regs Machine.rsp - 8
  top : s'.mem.read (s'.regs Machine.rsp) 8 = wordOf ret

theorem callMovs_ok (a : CallArgs) : ∀ i ∈ callMovs a, i.Ok := by
  simp [callMovs, Machine.Mov.Ok]

/-- The registers after the `MOV`s of a call. -/
theorem callMovs_regs (a : CallArgs) (regs : Machine.Reg → BitVec 64) :
    let regs' := Machine.movRegs regs (callMovs a)
    regs' Machine.rdi = a.arg0 ∧ regs' Machine.rsi = a.arg1 ∧ regs' Machine.rdx = a.arg2 ∧
    regs' Machine.rcx = a.arg3 ∧ regs' Machine.r8 = a.arg4 ∧ regs' Machine.r9 = a.arg5 ∧
    regs' Machine.rsp = regs Machine.rsp := by
  have h9 : ((0x49 : Byte).extractLsb' 0 1 ++ (0xb9 : Byte).extractLsb' 0 3) = Machine.r9 := by
    decide
  have h8 : ((0x49 : Byte).extractLsb' 0 1 ++ (0xb8 : Byte).extractLsb' 0 3) = Machine.r8 := by
    decide
  have hcx : ((0x48 : Byte).extractLsb' 0 1 ++ (0xb9 : Byte).extractLsb' 0 3) = Machine.rcx := by
    decide
  have hdx : ((0x48 : Byte).extractLsb' 0 1 ++ (0xba : Byte).extractLsb' 0 3) = Machine.rdx := by
    decide
  have hsi : ((0x48 : Byte).extractLsb' 0 1 ++ (0xbe : Byte).extractLsb' 0 3) = Machine.rsi := by
    decide
  have hdi : ((0x48 : Byte).extractLsb' 0 1 ++ (0xbf : Byte).extractLsb' 0 3) = Machine.rdi := by
    decide
  simp only [Machine.movRegs, callMovs, List.foldl_cons, List.foldl_nil, Machine.Mov.reg, h9, h8,
    hcx, hdx, hsi, hdi, Function.update_apply]
  refine ⟨?_, ?_, ?_, ?_, ?_, ?_, ?_⟩ <;> rfl

/-- Behind the `MOV`s, a `CALL` that returns to `ret` is at the callee. -/
theorem AtCallee.of_push {a : CallArgs} {s s₁ : Machine.State} (ret : Addr)
    (hregs : s₁.regs = Machine.movRegs s.regs (callMovs a)) :
    AtCallee a ret s { s₁.push ret with rip := a.call } := by
  obtain ⟨hrdi, hrsi, hrdx, hrcx, hr8, hr9, hrsp⟩ := callMovs_regs a s.regs
  rw [← hregs] at hrdi hrsi hrdx hrcx hr8 hr9 hrsp
  have hpush {r : Machine.Reg} (hne : r ≠ Machine.rsp) :
      (s₁.push ret).regs r = s₁.regs r := s₁.push_of_ne _ hne
  have hpushRsp := s₁.push_rsp ret
  exact {
    rip := rfl
    rdi := (hpush (by decide)).trans hrdi
    rsi := (hpush (by decide)).trans hrsi
    rdx := (hpush (by decide)).trans hrdx
    rcx := (hpush (by decide)).trans hrcx
    r8 := (hpush (by decide)).trans hr8
    r9 := (hpush (by decide)).trans hr9
    rsp := hpushRsp.trans (by rw [hrsp])
    top := by
      show Mem.read (s₁.mem.write _ _) ((s₁.push ret).regs Machine.rsp) 8 = _
      rw [hpushRsp]
      exact Mem.read_write_self _ _ _ (by decide) }

/-- The `CALL` of the code goes to the callee. -/
theorem step_callCode {a : CallArgs} {s : Machine.State} (h : Encodable (a.where_ + 60) a.call)
    (hrip : s.rip = a.where_ + 60)
    (hcode : Machine.CodeAt s.mem (a.where_ + 60)
      (0xe8 :: Machine.bytes32 ((callDistance a).setWidth 32))) :
    Machine.step s = some { s.push (a.where_ + 65) with rip := a.call } := by
  have htarget : a.where_ + 60 + 5 + ((callDistance a).setWidth 32).signExtend 64 = a.call := by
    rw [callDistance, signExtend_setWidth_of_range h.1 h.2, BitVec.add_comm, BitVec.sub_add_cancel]
  have hret : a.where_ + 60 + 5 = a.where_ + 65 := by rw [add_assoc]; rfl
  have hstep := @Machine.step_call s _ (by rw [hrip]; exact hcode)
  rw [hrip, htarget, hret] at hstep
  exact hstep

/-- Seven instructions bring the processor from the start of the code to the
callee. -/
theorem run_callCode {a : CallArgs} {s : Machine.State} (h : Encodable (a.where_ + 60) a.call)
    (hrip : s.rip = a.where_) (hcode : Machine.CodeAt s.mem a.where_ (callCode a)) :
    ∃ s', Machine.run 7 s = some s' ∧ AtCallee a (a.where_ + 65) s s' ∧
      s.mem (a.where_ + 65) = 0xcc ∧
      s'.mem = s.mem.write (s.regs Machine.rsp - 8) (wordOf (a.where_ + 65)) := by
  rw [callCode, Machine.codeAt_append, Machine.codeAt_append] at hcode
  obtain ⟨⟨hmovs, hcall⟩, hint3, -⟩ := hcode
  rw [← hrip] at hmovs
  -- the address behind the `MOV`s
  have hat : a.where_ + BitVec.ofNat 64 ((callMovs a).flatMap Machine.Mov.bytes).length =
      a.where_ + 60 := rfl
  rw [hat] at hcall
  have hend : s.mem (a.where_ + 65) = 0xcc := hint3
  have hrun := Machine.run_movs (callMovs_ok a) hmovs
  rw [hrip] at hrun
  -- the processor in front of the `CALL`
  obtain ⟨s₁, hs₁⟩ : ∃ s₁ : Machine.State, s₁ = { s with
      rip := a.where_ + 60, regs := Machine.movRegs s.regs (callMovs a) } := ⟨_, rfl⟩
  have hregs₁ : s₁.regs = Machine.movRegs s.regs (callMovs a) := by rw [hs₁]
  have hmem₁ : s₁.mem = s.mem := by rw [hs₁]
  have hrip₁ : s₁.rip = a.where_ + 60 := by rw [hs₁]
  have hstep := step_callCode h hrip₁ (by rw [hmem₁]; exact hcall)
  refine ⟨{ s₁.push (a.where_ + 65) with rip := a.call }, ?_, .of_push _ hregs₁, hend, ?_⟩
  · have hseven : Machine.run 7 s = (Machine.run 6 s).bind (Machine.run 1) := Machine.run_add 6 1 s
    have hsix : Machine.run 6 s = some s₁ := by rw [hs₁]; exact hrun
    rw [hseven, hsix, Option.bind_some, Machine.run, hstep]
    rfl
  · have hrsp : s₁.regs Machine.rsp = s.regs Machine.rsp := by
      rw [hregs₁]
      exact (callMovs_regs a s.regs).2.2.2.2.2.2
    show s₁.mem.write (s₁.regs Machine.rsp - 8) _ = _
    rw [hmem₁, hrsp]
    rfl

/-- For every sequence of calls on the one buffer: the next call succeeds exactly
when the callee is in reach of the `CALL`, and then its code brings the processor
to the callee, with the arguments in the registers of the calling convention and
an `INT3` at the return address. -/
theorem stub_calls_callee (calls : List StubCall) (c : StubCall) :
    (0 ≤ (c.make (blobAfter calls)).2 ↔
      -(2 ^ 31 - 1) ≤ (c.args.call - (c.args.where_ + 65)).toInt ∧
      (c.args.call - (c.args.where_ + 65)).toInt ≤ 2 ^ 31 - 1) ∧
    (0 ≤ (c.make (blobAfter calls)).2 →
      (c.make (blobAfter calls)).2 = (c.make (blobAfter calls)).1.bytes.length ∧
      ∀ s : Machine.State, s.rip = c.args.where_ →
        Machine.CodeAt s.mem c.args.where_ (c.make (blobAfter calls)).1.bytes →
        ∃ n s' ret, Machine.run n s = some s' ∧ AtCallee c.args ret s s' ∧
          Machine.decode s.mem ret = some (.int3, 1) ∧
          (Apart (s'.regs Machine.rsp) 8 ret 1 → Machine.decode s'.mem ret = some (.int3, 1))) := by
  have ht := blobAfter_template calls
  have hnext : c.args.where_ + 60 + 5 = c.args.where_ + 65 := by rw [add_assoc]; rfl
  have hreach : Encodable (c.args.where_ + 60) c.args.call ↔
      -(2 ^ 31 - 1) ≤ (c.args.call - (c.args.where_ + 65)).toInt ∧
      (c.args.call - (c.args.where_ + 65)).toInt ≤ 2 ^ 31 - 1 := by
    rw [Encodable, jumpDistance, hnext]
    omega
  rw [← hreach, c.make_eq]
  by_cases h : Encodable (c.args.where_ + 60) c.args.call
  · obtain ⟨hret, hbytes, -⟩ := x8664Call_ok ht h
    rw [hret, hbytes, length_callCode]
    refine ⟨iff_of_true (by decide) h, fun _ => ⟨rfl, fun s hrip hcode => ?_⟩⟩
    obtain ⟨s', hrun, hat, hint3, hmem⟩ := run_callCode h hrip hcode
    refine ⟨7, s', c.args.where_ + 65, hrun, hat, Machine.decode_int3 hint3, fun hap => ?_⟩
    refine Machine.decode_int3 ?_
    rw [hat.rsp] at hap
    rw [hmem, Mem.write_outside _ _ _ ?_]
    · exact hint3
    · refine hap.outside (x := c.args.where_ + 65) ?_
      rw [sub_self]
      decide
  · obtain ⟨hret, -⟩ := x8664Call_error ht h
    rw [hret]
    exact ⟨iff_of_false (by decide) h, fun hpos => absurd hpos (by decide)⟩

end Nsb
