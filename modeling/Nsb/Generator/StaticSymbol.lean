import Nsb.Lib.Bytes

/-!
# Static references of a patch

`static_symbol.py` of the generator.  For every PIC relocation in the code of a
patch that refers to a symbol of the target, `resolve` computes a value from
which the patcher derives the final field.

Python integers are `Int` and `Nat`.  A raised exception is an error of type
`Raised`, and the functions that may raise return `Except Raised`.  What the
generator knows of the two ELF files is given by `get_addr`: the address of a
key, `None` for a DIE without an address.
-/

namespace Nsb

/-- The Python exceptions the modelled functions of the generator raise. -/
inductive Raised where
  | exception (msg : String)
  | assertionError
  | attributeError
  | indexError
  | ioError
  | keyError
  | stopIteration
  | typeError
  | valueError
deriving DecidableEq, Repr

/-- `assert`. -/
def pyAssert (b : Bool) : Except Raised Unit :=
  if b then .ok () else .error .assertionError

theorem pyAssert_eq_ok_iff {b : Bool} {u : Unit} : pyAssert b = .ok u ↔ b = true := by
  cases b <;> simp [pyAssert]

/-- A sequence of two calls returns when both return. -/
theorem bind_eq_ok_iff {α β : Type} {x : Except Raised α} {f : α → Except Raised β} {b : β} :
    x >>= f = .ok b ↔ ∃ a, x = .ok a ∧ f a = .ok b := by
  cases x <;> simp [bind, Except.bind]

theorem mapM_eq_ok {α β : Type} {f : α → Except Raised β} {l : List α} {l' : List β}
    (h : l.mapM f = .ok l') : List.Forall₂ (fun a b => f a = .ok b) l l' := by
  induction l generalizing l' with
  | nil =>
      cases h
      exact .nil
  | cons a l induction =>
      rw [List.mapM_cons] at h
      obtain ⟨b, hb, h⟩ := bind_eq_ok_iff.mp h
      obtain ⟨rest, hrest, h⟩ := bind_eq_ok_iff.mp h
      cases h
      exact .cons hb (induction hrest)

/-- `index` finds the first occurrence. -/
theorem idxOf?_append_cons {α : Type} [BEq α] [LawfulBEq α] {front back : List α} {a : α}
    (h : a ∉ front) : (front ++ a :: back).idxOf? a = some front.length := by
  induction front with
  | nil => simp [List.idxOf?_cons]
  | cons b front induction =>
      rw [List.mem_cons, not_or] at h
      have hne : (b == a) = false := by simpa using Ne.symm h.1
      rw [List.cons_append, List.idxOf?_cons, hne, induction h.2]
      rfl

/-! ## Relocation types -/

/-- The relocation types of `RELOC_SIZES`. -/
inductive RelocType where
  | pc32
  | pc64
  | gotoff64
  | plt32
  | gotpcrel
  | rexGotpcrelx
deriving DecidableEq, Repr

/-- `RELOC_SIZES`. -/
def RelocType.size : RelocType → Nat
  | .pc32 => 4
  | .pc64 => 8
  | .gotoff64 => 8
  | .plt32 => 4
  | .gotpcrel => 4
  | .rexGotpcrelx => 4

theorem RelocType.size_cases (t : RelocType) : t.size = 4 ∨ t.size = 8 := by
  cases t <;> decide

/-- `RELOC_PIC_TYPES`. -/
def RelocType.isPic : RelocType → Bool
  | .pc32 => true
  | .pc64 => true
  | .gotoff64 => true
  | _ => false

/-- An entry of the list of relocations of a function. -/
structure Reloc (κ : Type) where
  relType : RelocType
  relOffset : Nat
  key : Option κ

/-- A section: the two fields of its header that place it, and the file. -/
structure Section where
  shAddr : Nat
  shOffset : Nat
  stream : List Byte

/-! ## Numbers in the code -/

/-- `read`.  Seeking in front of the file raises. -/
def Section.read (sec : Section) (addr size : Nat) : Except Raised (List Byte) :=
  let pos : Int := addr - sec.shAddr + sec.shOffset
  if pos < 0 then .error .ioError
  else do
    let data := (sec.stream.drop pos.toNat).take size
    pyAssert (data.length == size)
    pure data

/-- The loop of `read_num`. -/
def readNumLoop : List Byte → Nat → Nat → Nat
  | [], result, _ => result
  | b :: data, result, shift => readNumLoop data (result + b.toNat <<< shift) (shift + 8)

/-- `read_num`. -/
def readNum (sec : Section) (addr size : Nat) : Except Raised Nat := do
  let data ← sec.read addr size
  pure (readNumLoop data 0 0)

theorem readNumLoop_eq (data : List Byte) (result k : Nat) :
    readNumLoop data result (8 * k) = result + 256 ^ k * Bytes.leNat data := by
  induction data generalizing result k with
  | nil => simp [readNumLoop, Bytes.leNat]
  | cons b data induction =>
      rw [readNumLoop, show 8 * k + 8 = 8 * (k + 1) by omega, induction, Nat.shiftLeft_eq,
        Nat.pow_mul, Nat.pow_succ 256, Bytes.leNat, Nat.mul_add, Nat.mul_assoc, Nat.add_assoc,
        Nat.mul_comm b.toNat]

/-- `read_num` reads a little-endian number. -/
theorem readNum_eq {sec : Section} {addr size : Nat} {data : List Byte}
    (h : sec.read addr size = .ok data) : readNum sec addr size = .ok (Bytes.leNat data) := by
  have hloop := readNumLoop_eq data 0 0
  rw [Nat.mul_zero, Nat.zero_add, Nat.pow_zero, Nat.one_mul] at hloop
  rw [readNum, h, ← hloop]
  rfl

theorem Section.read_length {sec : Section} {addr size : Nat} {data : List Byte}
    (h : sec.read addr size = .ok data) : data.length = size := by
  simp only [Section.read, pyAssert] at h
  split at h
  · cases h
  · split at h
    · next hlen =>
        cases h
        exact beq_iff_eq.mp hlen
    · cases h

/-- `sign_extend`. -/
def signExtend (n lowBits highBits : Nat) : Except Raised Nat := do
  let lowSign := 1 <<< (lowBits - 1)
  let lowLim := lowSign <<< 1
  let highLim := 1 <<< highBits
  pyAssert (n < lowLim)
  pure (if n &&& lowSign ≠ 0 then n + highLim - lowLim else n)

/-- The sign bit of `sign_extend` is the most significant bit. -/
theorem and_lowSign_ne_zero {n k : Nat} (hk : 0 < k) :
    n &&& 1 <<< (k - 1) ≠ 0 ↔ (BitVec.ofNat k n).msb = true := by
  rw [BitVec.msb_eq_getLsbD_last, BitVec.getLsbD_ofNat, Nat.one_shiftLeft,
    decide_eq_true (show k - 1 < k by omega), Bool.true_and]
  constructor
  · intro h
    obtain ⟨i, hi⟩ := Nat.exists_testBit_of_ne_zero h
    rw [Nat.testBit_and, Nat.testBit_two_pow, Bool.and_eq_true, decide_eq_true_eq] at hi
    rw [hi.2]
    exact hi.1
  · intro h h0
    have hbit : (n &&& 2 ^ (k - 1)).testBit (k - 1) = true := by
      rw [Nat.testBit_and, h, Nat.testBit_two_pow_self, Bool.and_self]
    rw [h0, Nat.zero_testBit] at hbit
    cases hbit

/-- `sign_extend` to 64 bits is sign extension. -/
theorem signExtend_eq {n k : Nat} (hk : 0 < k) (hle : k ≤ 64) (hn : n < 2 ^ k) :
    signExtend n k 64 = .ok ((BitVec.ofNat k n).signExtend 64).toNat := by
  have hlim : (1 <<< (k - 1)) <<< 1 = 2 ^ k := by
    rw [Nat.shiftLeft_eq, Nat.shiftLeft_eq, Nat.one_mul, ← Nat.pow_add, Nat.sub_add_cancel hk]
  have hpow : 2 ^ k ≤ 2 ^ 64 := Nat.pow_le_pow_right (by decide) hle
  have hassert : pyAssert (decide (n < 2 ^ k)) = .ok () :=
    pyAssert_eq_ok_iff.mpr (decide_eq_true hn)
  rw [BitVec.toNat_signExtend, BitVec.toNat_setWidth, BitVec.toNat_ofNat, Nat.mod_eq_of_lt hn,
    Nat.mod_eq_of_lt (Nat.lt_of_lt_of_le hn hpow), signExtend, hlim, hassert]
  by_cases hsign : (BitVec.ofNat k n).msb = true
  · rw [if_pos ((and_lowSign_ne_zero hk).mpr hsign), if_pos hsign, Nat.one_shiftLeft,
      Nat.add_sub_assoc hpow]
    rfl
  · rw [if_neg (fun h => hsign ((and_lowSign_ne_zero hk).mp h)), if_neg hsign]
    rfl

/-! ## Resolving -/

/-- An element of the result of `resolve`. -/
structure StaticRef where
  relSize : Nat
  patchAddress : Nat
  targetValue : Nat
deriving DecidableEq, Repr

variable {κ : Type}

/-- `rel_value` of `resolve`: the field of a relocation. -/
def relValue (newTextSec : Section) (patchAddress relSize : Nat) : Except Raised Nat := do
  let value ← readNum newTextSec patchAddress relSize
  if relSize < 8 then signExtend value (8 * relSize) 64 else pure value

/-- The body of the inner loop of `resolve`: `none` when the relocation is
skipped.  `oldAddr` and `newAddr` are `get_addr` on the two ELF files. -/
def resolveReloc (oldAddr newAddr : κ → Except Raised (Option Nat)) (newTextSec : Section)
    (funcNewAddr : Nat) (rel : Reloc κ) : Except Raised (Option StaticRef) :=
  if !rel.relType.isPic then .ok none
  else
    match rel.key with
    | none => .ok none
    | some key => do
        let patchAddress := funcNewAddr + rel.relOffset
        let some old ← oldAddr key | pure none
        if old = 0 then pure none
        else
          let relSize := rel.relType.size
          let value ← relValue newTextSec patchAddress relSize
          let some new ← newAddr key | throw .typeError
          let targetValue := ((value : Int) + old - new) % (1 <<< 64 : Nat)
          pure (some ⟨relSize, patchAddress, targetValue.toNat⟩)

/-- The inner loop of `resolve`, over the relocations of one function. -/
def resolveRelocs (oldAddr newAddr : κ → Except Raised (Option Nat)) (newTextSec : Section)
    (funcNewAddr : Nat) : List (Reloc κ) → Except Raised (List StaticRef)
  | [] => .ok []
  | rel :: relocs => do
      let ref ← resolveReloc oldAddr newAddr newTextSec funcNewAddr rel
      let refs ← resolveRelocs oldAddr newAddr newTextSec funcNewAddr relocs
      pure (ref.toList ++ refs)

/-- A field of four or eight bytes is read with its sign. -/
theorem relValue_eq {sec : Section} {addr size : Nat} {data : List Byte}
    (hsize : size = 4 ∨ size = 8) (h : sec.read addr size = .ok data) :
    relValue sec addr size = .ok (Bytes.signed data).toNat := by
  have hlen := Section.read_length h
  have hlt := Bytes.leNat_lt data
  rw [hlen] at hlt
  rw [relValue, readNum_eq h]
  rcases hsize with rfl | rfl
  · show signExtend (Bytes.leNat data) 32 64 = _
    rw [signExtend_eq (by decide) (by decide) hlt, Bytes.signed, hlen]
  · show Except.ok (Bytes.leNat data) = _
    rw [Bytes.signed_eight hlen, BitVec.toNat_ofNat, Nat.mod_eq_of_lt (show _ < 2 ^ 64 from hlt)]

/-- A relocation whose field sign-extends to `x` gets `x` moved by the distance
of the two addresses of its symbol, modulo `2 ^ 64`. -/
theorem resolveReloc_linked {oldAddr newAddr : κ → Except Raised (Option Nat)} {sec : Section}
    {funcNewAddr : Nat} {rel : Reloc κ} {key : κ} {old new x : BitVec 64} {data : List Byte}
    (hpic : rel.relType.isPic = true) (hkey : rel.key = some key)
    (hold : oldAddr key = .ok (some old.toNat)) (hne : old ≠ 0)
    (hnew : newAddr key = .ok (some new.toNat))
    (hread : sec.read (funcNewAddr + rel.relOffset) rel.relType.size = .ok data)
    (hx : Bytes.signed data = x) :
    resolveReloc oldAddr newAddr sec funcNewAddr rel =
      .ok (some ⟨rel.relType.size, funcNewAddr + rel.relOffset, (x + old - new).toNat⟩) := by
  have hold0 : old.toNat ≠ 0 := fun h => hne (BitVec.eq_of_toNat_eq h)
  have hvalue := relValue_eq rel.relType.size_cases hread
  have htarget : (((x.toNat : Int) + old.toNat - new.toNat) % (1 <<< 64 : Nat)).toNat =
      (x + old - new).toNat := by
    have h := new.isLt
    rw [Nat.one_shiftLeft]
    bv_omega
  rw [hx] at hvalue
  simp only [resolveReloc, hpic, hkey, hold, hnew, hvalue, bind, Except.bind, hold0, Bool.not_true,
    Bool.false_eq_true, if_false, htarget]
  rfl

/-- Nothing is lost in the loop: what a relocation resolves to is in the
result. -/
theorem mem_resolveRelocs {oldAddr newAddr : κ → Except Raised (Option Nat)} {sec : Section}
    {funcNewAddr : Nat} {relocs : List (Reloc κ)} {refs : List StaticRef} {rel : Reloc κ}
    {ref : StaticRef} (h : resolveRelocs oldAddr newAddr sec funcNewAddr relocs = .ok refs)
    (hmem : rel ∈ relocs)
    (hrel : resolveReloc oldAddr newAddr sec funcNewAddr rel = .ok (some ref)) : ref ∈ refs := by
  induction relocs generalizing refs with
  | nil => cases hmem
  | cons r relocs induction =>
      rw [resolveRelocs] at h
      obtain ⟨got, hr, h⟩ := bind_eq_ok_iff.mp h
      obtain ⟨rest, hrs, h⟩ := bind_eq_ok_iff.mp h
      cases h
      rcases List.mem_cons.mp hmem with rfl | hmem
      · rw [hrel] at hr
        cases hr
        exact List.mem_append_left _ (by simp)
      · exact List.mem_append_right _ (induction hrs hmem)

end Nsb
