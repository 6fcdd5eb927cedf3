import Nsb.Lib.Bits
import Nsb.Patcher.Types

/-!
# Jump instructions

The encoder of `patcher/x86_64.c`.  A jump is the byte `e9` with a 32-bit offset
from the next instruction, and `x86_jmpq_instruction` pads the buffer with
one-byte NOPs.

`IsJump` reads eight bytes back as the processor does: it says where they lead
when they stand at a given address.  The encoder and `IsJump` agree
(`jumpBytes_isJump`), and the encoder refuses exactly the distances of
`2 ^ 31` and more (`x86JmpqInstruction_ok_iff`).
-/

namespace Nsb

/-- `X86_64_JUMP_RANGE`: 2 GB. -/
def X86_64_JUMP_RANGE : BitVec 64 := 2 <<< 30

/-- `x86_jump_min_address`. -/
def x86JumpMinAddress (address : Addr) : Addr :=
  if address > X86_64_JUMP_RANGE then address - X86_64_JUMP_RANGE else 0

/-- `x86_jump_max_address`. -/
def x86JumpMaxAddress (address : Addr) : Addr := address + X86_64_JUMP_RANGE

/-- `INT_MAX`. -/
def INT_MAX : BitVec 64 := 0x7fffffff

/-- `ip_gen_offset`: the offset that is stored at `buf`. -/
def ipGenOffset (nextIp tgtPos : Addr) (addrSize : Nat) : Except Int (BitVec 32) :=
  let mask := INT_MAX
  if addrSize ≠ 4 then .error (-ENOTSUP)
  else
    let offset := tgtPos - nextIp
    if offset.abs &&& ~~~ mask ≠ 0 then .error (-EINVAL)
    else .ok (offset.setWidth 32)

/-- `x86_modify_instruction`: the buffer afterwards and the return code. -/
def x86ModifyInstruction {n : Nat} (buf : Vector Byte n) (opSize addrSize : Nat)
    (curPos tgtPos : Addr) : Vector Byte n × Int :=
  let instrSize := opSize + addrSize
  match ipGenOffset (curPos + BitVec.ofNat 64 instrSize) tgtPos addrSize with
  | .error _ => (buf, -1)
  | .ok offset =>
      (Vector.ofFn fun i =>
        if opSize ≤ i.val ∧ i.val < opSize + 4 then offset.extractLsb' (8 * (i.val - opSize)) 8
        else buf.get i, instrSize)

/-- The buffer that `x86_jmpq_instruction` starts from. -/
def jmpqTemplate (n : Nat) : Vector Byte n :=
  Vector.ofFn fun i => if i.val = 0 then 0xe9 else 0x90

/-- `x86_jmpq_instruction`: the buffer afterwards and the return code. -/
def x86JmpqInstruction {n : Nat} (buf : Vector Byte n) (curPos tgtPos : Addr) :
    Vector Byte n × Int :=
  if n < 5 then (buf, -ENOSPC)
  else x86ModifyInstruction (jmpqTemplate n) 1 4 curPos tgtPos

/-! ## Decoding -/

/-- The 32-bit offset behind the opcode. -/
def jumpOffset (w : Word) : BitVec 32 := w[4] ++ w[3] ++ w[2] ++ w[1]

/-- At address `cur` the bytes are a jump to `tgt` and three NOPs. -/
def IsJump (w : Word) (cur tgt : Addr) : Prop :=
  w[0] = 0xe9 ∧ cur + 5 + (jumpOffset w).signExtend 64 = tgt ∧
    w[5] = 0x90 ∧ w[6] = 0x90 ∧ w[7] = 0x90

instance (w : Word) (cur tgt : Addr) : Decidable (IsJump w cur tgt) :=
  inferInstanceAs (Decidable (_ ∧ _))

/-- The distance from the end of a jump at `cur` to `tgt`. -/
def jumpDistance (cur tgt : Addr) : Int := (tgt - (cur + 5)).toInt

/-- A jump from `cur` to `tgt` can be encoded. -/
def Encodable (cur tgt : Addr) : Prop :=
  -2 ^ 31 < jumpDistance cur tgt ∧ jumpDistance cur tgt < 2 ^ 31

instance (cur tgt : Addr) : Decidable (Encodable cur tgt) :=
  inferInstanceAs (Decidable (_ ∧ _))

/-- The bytes of the jump from `cur` to `tgt`. -/
def jumpBytes (cur tgt : Addr) : Word := (x86JmpqInstruction (jmpqTemplate 8) cur tgt).1

/-! ## The range test -/

theorem and_intMax (x : BitVec 64) : x &&& INT_MAX = x ↔ x.toNat < 2 ^ 31 := by
  have hlow : (x &&& INT_MAX).toNat = x.toNat % 2 ^ 31 := Bits.toNat_and_low rfl
  rw [← BitVec.toNat_inj, hlow]
  omega

/-- The mask test of `ip_gen_offset` bounds the offset from both sides. -/
theorem abs_and_not_intMax (offset : BitVec 64) :
    offset.abs &&& ~~~ INT_MAX = 0 ↔ -2 ^ 31 < offset.toInt ∧ offset.toInt < 2 ^ 31 := by
  rw [Bits.and_not_eq_zero, and_intMax, BitVec.abs_eq, BitVec.toInt_eq_msb_cond]
  have hlt := offset.isLt
  have hmsb := BitVec.msb_eq_decide offset
  by_cases h : offset.msb = true
  · rw [h] at hmsb
    have hbig := of_decide_eq_true hmsb.symm
    rw [if_pos h, if_pos h, BitVec.toNat_neg]
    omega
  · rw [if_neg h, if_neg h]
    omega

theorem ipGenOffset_ok {cur tgt : Addr} (h : Encodable cur tgt) :
    ipGenOffset (cur + BitVec.ofNat 64 (1 + 4)) tgt 4 = .ok ((tgt - (cur + 5)).setWidth 32) := by
  have hz : (tgt - (cur + 5)).abs &&& ~~~ INT_MAX = 0 := (abs_and_not_intMax _).mpr h
  rw [ipGenOffset]
  rw [if_neg (by simp)]
  exact if_neg (not_not_intro hz)

theorem ipGenOffset_error {cur tgt : Addr} (h : ¬ Encodable cur tgt) :
    ipGenOffset (cur + BitVec.ofNat 64 (1 + 4)) tgt 4 = .error (-EINVAL) := by
  have hz : (tgt - (cur + 5)).abs &&& ~~~ INT_MAX ≠ 0 := fun hz => h ((abs_and_not_intMax _).mp hz)
  rw [ipGenOffset]
  rw [if_neg (by simp)]
  exact if_pos hz

/-! ## The encoder -/

theorem x86JmpqInstruction_ok (buf : Word) {cur tgt : Addr} (h : Encodable cur tgt) :
    x86JmpqInstruction buf cur tgt = (jumpBytes cur tgt, 5) := by
  have hb : ∀ buf : Word, x86JmpqInstruction buf cur tgt =
      x86ModifyInstruction (jmpqTemplate 8) 1 4 cur tgt := fun _ => rfl
  have hret : (x86ModifyInstruction (jmpqTemplate 8) 1 4 cur tgt).2 = 5 := by
    unfold x86ModifyInstruction
    dsimp only
    rw [ipGenOffset_ok h]
    rfl
  rw [jumpBytes, hb, hb, ← hret]

/-- A target out of reach leaves the opcode and seven NOPs in the buffer. -/
theorem x86JmpqInstruction_error (buf : Word) {cur tgt : Addr} (h : ¬ Encodable cur tgt) :
    x86JmpqInstruction buf cur tgt = (jmpqTemplate 8, -1) := by
  have hb : x86JmpqInstruction buf cur tgt =
      x86ModifyInstruction (jmpqTemplate 8) 1 4 cur tgt := rfl
  rw [hb]
  unfold x86ModifyInstruction
  dsimp only
  rw [ipGenOffset_error h]

theorem x86JmpqInstruction_ok_iff (buf : Word) (cur tgt : Addr) :
    0 ≤ (x86JmpqInstruction buf cur tgt).2 ↔ Encodable cur tgt := by
  by_cases h : Encodable cur tgt
  · simp [x86JmpqInstruction_ok buf h, h]
  · simp [x86JmpqInstruction_error buf h, h]

theorem jumpBytes_eq {cur tgt : Addr} (h : Encodable cur tgt) :
    jumpBytes cur tgt = Vector.ofFn fun i =>
      if 1 ≤ i.val ∧ i.val < 5 then
        ((tgt - (cur + 5)).setWidth 32).extractLsb' (8 * (i.val - 1)) 8
      else (jmpqTemplate 8).get i := by
  have hb : jumpBytes cur tgt = (x86ModifyInstruction (jmpqTemplate 8) 1 4 cur tgt).1 := rfl
  rw [hb]
  unfold x86ModifyInstruction
  dsimp only
  rw [ipGenOffset_ok h]

/-- An offset that passed the range test survives the cut to 32 bits. -/
theorem signExtend_setWidth_of_range {x : BitVec 64} (h1 : -2 ^ 31 < x.toInt)
    (h2 : x.toInt < 2 ^ 31) : (x.setWidth 32).signExtend 64 = x := by
  rw [← BitVec.toInt_inj, BitVec.toInt_signExtend_of_le (by decide), BitVec.toInt_setWidth]
  have hx : x.toInt = Int.bmod x.toNat (2 ^ 64) := BitVec.toInt_eq_toNat_bmod x
  have hdvd : Int.bmod (Int.bmod x.toNat (2 ^ 64)) (2 ^ 32) = Int.bmod x.toNat (2 ^ 32) :=
    Int.bmod_bmod_of_dvd (by decide)
  rw [← hdvd, ← hx, Int.bmod_eq_of_le] <;> omega

/-- What the encoder writes leads to where it was asked to. -/
theorem jumpBytes_isJump {cur tgt : Addr} (h : Encodable cur tgt) :
    IsJump (jumpBytes cur tgt) cur tgt := by
  have hoff : jumpOffset (jumpBytes cur tgt) = (tgt - (cur + 5)).setWidth 32 := by
    rw [jumpBytes_eq h]
    simpa [jumpOffset] using Bits.append_bytes ((tgt - (cur + 5)).setWidth 32)
  have hpad : ∀ i (hi : i < 8), ¬ (1 ≤ i ∧ i < 5) →
      (jumpBytes cur tgt)[i] = (jmpqTemplate 8).get ⟨i, hi⟩ := by
    intro i hi hout
    rw [jumpBytes_eq h, Vector.getElem_ofFn]
    exact if_neg hout
  refine ⟨?_, ?_, ?_, ?_, ?_⟩
  · rw [hpad 0 (by decide) (by decide)]; rfl
  · rw [hoff, signExtend_setWidth_of_range h.1 h.2]
    rw [BitVec.add_comm, BitVec.sub_add_cancel]
  · rw [hpad 5 (by decide) (by decide)]; rfl
  · rw [hpad 6 (by decide) (by decide)]; rfl
  · rw [hpad 7 (by decide) (by decide)]; rfl

/-- The encoder takes the distances whose magnitude is below `2 ^ 31`, and what it
leaves in the buffer then is a jump over that distance and three NOPs. -/
theorem x86JmpqInstruction_exact (buf : Word) (cur tgt : Addr) :
    (0 ≤ (x86JmpqInstruction buf cur tgt).2 ↔
      -(2 ^ 31 - 1) ≤ (tgt - (cur + 5)).toInt ∧ (tgt - (cur + 5)).toInt ≤ 2 ^ 31 - 1) ∧
    (0 ≤ (x86JmpqInstruction buf cur tgt).2 →
      IsJump (x86JmpqInstruction buf cur tgt).1 cur tgt) := by
  constructor
  · rw [x86JmpqInstruction_ok_iff, Encodable, jumpDistance]
    omega
  · intro hok
    have henc := (x86JmpqInstruction_ok_iff buf cur tgt).mp hok
    rw [x86JmpqInstruction_ok buf henc]
    exact jumpBytes_isJump henc

/-- Different targets have different jumps. -/
theorem jumpBytes_inj {cur tgt tgt' : Addr} (h : Encodable cur tgt) (h' : Encodable cur tgt')
    (heq : jumpBytes cur tgt = jumpBytes cur tgt') : tgt = tgt' := by
  have h1 := (jumpBytes_isJump h).2.1
  have h2 := (jumpBytes_isJump h').2.1
  rw [heq] at h1
  exact h1.symm.trans h2

/-- What the encoder leaves behind when it fails leads somewhere else. -/
theorem encodable_of_isJump_template {cur tgt : Addr} (h : IsJump (jmpqTemplate 8) cur tgt) :
    Encodable cur tgt := by
  obtain ⟨-, htgt, -⟩ := h
  have hoff : (jumpOffset (jmpqTemplate 8)).signExtend 64 = 0xffffffff90909090 := by decide
  rw [hoff] at htgt
  have hdist : jumpDistance cur tgt = (0xffffffff90909090 : BitVec 64).toInt := by
    rw [jumpDistance, ← htgt, add_sub_cancel_left]
  rw [Encodable, hdist]
  decide

end Nsb
