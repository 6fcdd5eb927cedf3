import Mathlib.Logic.Function.Basic
import Nsb.Lib.Bits
import Nsb.Lib.Memory

/-!
# Straight-line code of x86-64

The three instructions that a call from outside takes, with their encodings:
`MOV r64, imm64` is a REX prefix, the opcode `b8` with the register in its low
bits, and the eight bytes of the number; `CALL rel32` is `e8` and a distance from
the next instruction; `INT3` is the byte `cc`.  The low bit of the prefix is the
high bit of the register.

`step` is one instruction.  `CodeAt` says that bytes stand in memory, and
`run_movs` runs a row of `MOV`s at once.
-/

namespace Machine

/-- The number of a general-purpose register. -/
abbrev Reg := BitVec 4

def rcx : Reg := 1
def rdx : Reg := 2
def rsp : Reg := 4
def rsi : Reg := 6
def rdi : Reg := 7
def r8 : Reg := 8
def r9 : Reg := 9

inductive Instr where
  | mov (reg : Reg) (imm : BitVec 64)
  | call (rel : BitVec 32)
  | int3
deriving DecidableEq

structure State where
  rip : Addr
  regs : Reg → BitVec 64
  mem : Mem

/-! ## Numbers in memory -/

/-- The bytes of a 64-bit number, the lowest first. -/
def bytes64 (v : BitVec 64) : Vector Byte 8 := Vector.ofFn fun i => v.extractLsb' (8 * i) 8

def imm32 (m : Mem) (a : Addr) : BitVec 32 := m (a + 3) ++ m (a + 2) ++ m (a + 1) ++ m a

def imm64 (m : Mem) (a : Addr) : BitVec 64 := imm32 m (a + 4) ++ imm32 m a

/-! ## Execution -/

/-- The instruction at an address, with its length. -/
def decode (m : Mem) (ip : Addr) : Option (Instr × BitVec 64) :=
  if m ip = 0xe8 then some (.call (imm32 m (ip + 1)), 5)
  else if m ip = 0xcc then some (.int3, 1)
  else if m ip = 0x48 ∨ m ip = 0x49 then
    if m (ip + 1) &&& 0xf8 = 0xb8 then
      some (.mov ((m ip).extractLsb' 0 1 ++ (m (ip + 1)).extractLsb' 0 3) (imm64 m (ip + 2)), 10)
    else none
  else none

/-- Push a number on the stack. -/
def State.push (s : State) (v : BitVec 64) : State :=
  { s with
    regs := Function.update s.regs rsp (s.regs rsp - 8)
    mem := s.mem.write (s.regs rsp - 8) (bytes64 v) }

theorem State.push_rsp (s : State) (v : BitVec 64) :
    (s.push v).regs rsp = s.regs rsp - 8 := Function.update_self rsp _ s.regs

theorem State.push_of_ne (s : State) (v : BitVec 64) {r : Reg} (h : r ≠ rsp) :
    (s.push v).regs r = s.regs r := Function.update_of_ne h _ s.regs

/-- An instruction that ends at `next`.  A trap ends the run. -/
def exec (next : Addr) (s : State) : Instr → Option State
  | .mov reg imm => some { s with rip := next, regs := Function.update s.regs reg imm }
  | .call rel => some { s.push next with rip := next + rel.signExtend 64 }
  | .int3 => none

/-- One instruction. -/
def step (s : State) : Option State :=
  (decode s.mem s.rip).bind fun i => exec (s.rip + i.2) s i.1

/-- A number of instructions. -/
def run : Nat → State → Option State
  | 0, s => some s
  | n + 1, s => (step s).bind (run n)

theorem run_add (n k : Nat) (s : State) : run (n + k) s = (run n s).bind (run k) := by
  induction n generalizing s with
  | zero => rw [Nat.zero_add]; rfl
  | succ n induction =>
      rw [Nat.succ_add, run, run]
      cases step s with
      | none => rfl
      | some s' => exact induction s'

/-! ## Code -/

/-- The bytes stand in memory from an address on. -/
def CodeAt (m : Mem) : Addr → List Byte → Prop
  | _, [] => True
  | a, b :: l => m a = b ∧ CodeAt m (a + 1) l

theorem codeAt_append {m : Mem} {a : Addr} {l l' : List Byte} :
    CodeAt m a (l ++ l') ↔ CodeAt m a l ∧ CodeAt m (a + BitVec.ofNat 64 l.length) l' := by
  induction l generalizing a with
  | nil =>
      rw [List.length_nil, BitVec.add_zero]
      simp [CodeAt]
  | cons b l induction =>
      have hlen : a + BitVec.ofNat 64 (b :: l).length = a + 1 + BitVec.ofNat 64 l.length := by
        rw [List.length_cons, Nat.add_comm, BitVec.ofNat_add, BitVec.add_assoc]
        rfl
      rw [List.cons_append, CodeAt, CodeAt, induction, hlen, and_assoc]

/-- The four bytes of a number, the lowest first. -/
def bytes32 (v : BitVec 32) : List Byte :=
  [v.extractLsb' 0 8, v.extractLsb' 8 8, v.extractLsb' 16 8, v.extractLsb' 24 8]

theorem imm32_eq {m : Mem} {a : Addr} {v : BitVec 32} (h : CodeAt m a (bytes32 v)) :
    imm32 m a = v := by
  obtain ⟨h0, h1, h2, h3, -⟩ := h
  have h2' : m (a + 2) = v.extractLsb' 16 8 := by rwa [add_assoc] at h2
  have h3' : m (a + 3) = v.extractLsb' 24 8 := by rwa [add_assoc, add_assoc] at h3
  rw [imm32, h0, h1, h2', h3']
  exact Bits.append_bytes v

theorem toList_bytes64 (v : BitVec 64) :
    (bytes64 v).toList = bytes32 (v.extractLsb' 0 32) ++ bytes32 (v.extractLsb' 32 32) := by
  have high : ∀ i, i + 8 ≤ 32 →
      (v.extractLsb' 32 32).extractLsb' i 8 = v.extractLsb' (32 + i) 8 := by
    intro i hi
    ext j hj
    have hin : i + j < 32 := by omega
    simp [BitVec.getElem_extractLsb', hin, Nat.add_assoc]
  simp [bytes64, bytes32, Vector.toList_ofFn, List.ofFn_succ, high]

theorem imm64_eq {m : Mem} {a : Addr} {v : BitVec 64} (h : CodeAt m a (bytes64 v).toList) :
    imm64 m a = v := by
  rw [toList_bytes64, codeAt_append] at h
  have hlow := imm32_eq h.1
  have hhigh : imm32 m (a + 4) = v.extractLsb' 32 32 := imm32_eq h.2
  have hjoin : v.extractLsb' 32 32 ++ v.extractLsb' 0 32 = v.extractLsb' 0 64 :=
    BitVec.extractLsb'_append_extractLsb'_eq_extractLsb' rfl
  rw [imm64, hlow, hhigh, hjoin, BitVec.extractLsb'_eq_self]

/-! ## Rows of `MOV`s -/

/-- A `MOV` by its prefix, its opcode and its number. -/
structure Mov where
  rex : Byte
  op : Byte
  imm : BitVec 64

/-- The prefix and the opcode are those of a `MOV r64, imm64`. -/
def Mov.Ok (i : Mov) : Prop := (i.rex = 0x48 ∨ i.rex = 0x49) ∧ i.op &&& 0xf8 = 0xb8

def Mov.bytes (i : Mov) : List Byte := i.rex :: i.op :: (bytes64 i.imm).toList

def Mov.reg (i : Mov) : Reg := i.rex.extractLsb' 0 1 ++ i.op.extractLsb' 0 3

theorem Mov.length_bytes (i : Mov) : i.bytes.length = 10 := rfl

/-- The registers after a row of `MOV`s. -/
def movRegs (regs : Reg → BitVec 64) (l : List Mov) : Reg → BitVec 64 :=
  l.foldl (fun regs i => Function.update regs i.reg i.imm) regs

theorem step_mov {s : State} {i : Mov} (hok : i.Ok) (h : CodeAt s.mem s.rip i.bytes) :
    step s = some { s with rip := s.rip + 10, regs := Function.update s.regs i.reg i.imm } := by
  obtain ⟨hrex, hop, himm⟩ := h
  rw [add_assoc] at himm
  have hval : imm64 s.mem (s.rip + 2) = i.imm := imm64_eq himm
  have hne : ¬ i.rex = 0xe8 ∧ ¬ i.rex = 0xcc := by
    rcases hok.1 with h | h
    · rw [h]; decide
    · rw [h]; decide
  have hdec : decode s.mem s.rip = some (.mov i.reg i.imm, 10) := by
    rw [decode, hrex, hop, if_neg hne.1, if_neg hne.2, if_pos hok.1, if_pos hok.2, hval]
    rfl
  rw [step, hdec]
  rfl

/-- A row of `MOV`s sets its registers and goes on behind it. -/
theorem run_movs {l : List Mov} {s : State} (hok : ∀ i ∈ l, i.Ok)
    (h : CodeAt s.mem s.rip (l.flatMap Mov.bytes)) :
    run l.length s = some { s with
      rip := s.rip + BitVec.ofNat 64 (10 * l.length), regs := movRegs s.regs l } := by
  induction l generalizing s with
  | nil =>
      have hrip : s.rip + BitVec.ofNat 64 (10 * ([] : List Mov).length) = s.rip :=
        BitVec.add_zero _
      rw [hrip]
      rfl
  | cons i l induction =>
      rw [List.forall_mem_cons] at hok
      rw [List.flatMap_cons, codeAt_append, i.length_bytes] at h
      have hrest := @induction { s with
        rip := s.rip + 10, regs := Function.update s.regs i.reg i.imm } hok.2 h.2
      rw [List.length_cons, run, step_mov hok.1 h.1, Option.bind_some, hrest]
      have hrip : s.rip + 10 + BitVec.ofNat 64 (10 * l.length) =
          s.rip + BitVec.ofNat 64 (10 * (l.length + 1)) := by
        rw [Nat.mul_add, Nat.add_comm, BitVec.ofNat_add, BitVec.add_assoc]
        rfl
      rw [← hrip]
      rfl

/-! ## Calls and traps -/

/-- A `CALL` pushes the address behind it and goes on at its target. -/
theorem step_call {s : State} {rel : BitVec 32} (h : CodeAt s.mem s.rip (0xe8 :: bytes32 rel)) :
    step s = some { s.push (s.rip + 5) with rip := s.rip + 5 + rel.signExtend 64 } := by
  obtain ⟨hop, hrel⟩ := h
  have hdec : decode s.mem s.rip = some (.call rel, 5) := by
    rw [decode, hop, if_pos rfl, imm32_eq hrel]
  rw [step, hdec]
  rfl

theorem decode_int3 {m : Mem} {a : Addr} (h : m a = 0xcc) : decode m a = some (.int3, 1) := by
  rw [decode, h]
  rfl

end Machine
