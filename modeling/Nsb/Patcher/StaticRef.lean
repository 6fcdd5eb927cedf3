import Nsb.Generator.StaticSymbol
import Nsb.Patcher.Apply
import Mathlib.Tactic.Ring

/-!
# The two sides of a static reference

The linker put `D_new + A - P` into a field of the patch at `P`, and the field is
to hold the distance to `D_old + A` in the target once both are loaded.  The
generator moves the value by `D_old - D_new`, the patcher by the distance of the
two load bases.  All sums are taken modulo `2 ^ 64`, and the patcher refuses a
value that does not fit the field.

A field of four bytes is written together with the four bytes behind it, which
are read first and written back.
-/

namespace Nsb

/-- The value fits 32 signed bits. -/
def FitsInt32 (v : BitVec 64) : Prop := -2 ^ 31 ≤ v.toInt ∧ v.toInt < 2 ^ 31

instance (v : BitVec 64) : Decidable (FitsInt32 v) := inferInstanceAs (Decidable (_ ∧ _))

/-- The message of a reference in the patch file. -/
def StaticRef.toStaticSym (ref : StaticRef) : StaticSym :=
  { patchSize := BitVec.ofNat 32 ref.relSize
    patchAddress := BitVec.ofNat 64 ref.patchAddress
    targetValue := BitVec.ofNat 64 ref.targetValue }

/-! ## The range test -/

theorem shiftRight_eq_zero_iff (v : BitVec 64) (k : Nat) : v >>> k = 0 ↔ v.toNat < 2 ^ k := by
  rw [← BitVec.toNat_inj, BitVec.toNat_ushiftRight, Nat.shiftRight_eq_div_pow]
  exact Nat.div_eq_zero_iff_lt (Nat.two_pow_pos k)

/-- The range test of four bytes is the range of a signed 32-bit number. -/
theorem relocOverflows_four (v : BitVec 64) : relocOverflows v 4 = false ↔ FitsInt32 v := by
  have hlt := v.isLt
  have hsign : ((v >>> 31) &&& 1) ≠ 0 ↔ v.toNat / 2 ^ 31 % 2 = 1 := by
    rw [ne_eq, ← BitVec.toNat_inj, BitVec.toNat_and, BitVec.toNat_ushiftRight,
      Nat.shiftRight_eq_div_pow]
    show ¬ v.toNat / 2 ^ 31 &&& 1 = 0 ↔ _
    rw [Nat.and_one_is_mod]
    omega
  rw [FitsInt32, BitVec.toInt_eq_toNat_cond]
  show ((if (v >>> 31) &&& 1 ≠ 0 then ~~~ v else v) >>> 32 != 0) = false ↔ _
  rw [bne_eq_false_iff_eq, shiftRight_eq_zero_iff]
  by_cases h : v.toNat / 2 ^ 31 % 2 = 1
  · rw [if_pos (hsign.mpr h), BitVec.toNat_not]
    split <;> omega
  · rw [if_neg (fun hs => h (hsign.mp hs))]
    split <;> omega

/-! ## The write -/

/-- The bytes of a 64-bit value, as a list. -/
theorem toList_wordOf (v : BitVec 64) : (wordOf v).toList = Bytes.leBytes 8 v.toNat := by
  apply List.ext_getElem
  · simp
  · intro i h₁ h₂
    rw [Bytes.getElem_leBytes]
    simp only [wordOf, Vector.getElem_toList, Vector.getElem_ofFn]
    apply BitVec.eq_of_toNat_eq
    rw [BitVec.extractLsb'_toNat, BitVec.toNat_ofNat, Nat.shiftRight_eq_div_pow, Nat.pow_mul]

/-- The eight bytes that `write_static_ref` writes. -/
def refBytes (offset : BitVec 64) (offsetSize : Nat) (buf : Word) : Word :=
  Vector.ofFn fun i => if i.val < offsetSize then (wordOf offset).get i else buf.get i

theorem take_refBytes (v : BitVec 64) {s : Nat} (hs : s ≤ 8) (buf : Word) :
    (refBytes v s buf).toList.take s = Bytes.leBytes s v.toNat := by
  have hfront : (refBytes v s buf).toList.take s = (wordOf v).toList.take s := by
    apply List.ext_getElem
    · simp
    · intro i h₁ h₂
      have hi : i < s := by
        rw [List.length_take] at h₁
        omega
      simp only [List.getElem_take, Vector.getElem_toList, refBytes, Vector.getElem_ofFn, hi,
        if_true]
      rfl
  rw [hfront, toList_wordOf, Bytes.take_leBytes, Nat.min_eq_left hs]

/-- Bytes that are read and written back do not change. -/
theorem write_refBytes_outside (m : Mem) (a : Addr) (v : BitVec 64) (s : Nat) {x : Addr}
    (hx : ¬ (x - a).toNat < s) : m.write a (refBytes v s (m.read a 8)) x = m x := by
  by_cases h8 : (x - a).toNat < 8
  · have hbyte : m.write a (refBytes v s (m.read a 8)) x =
      m (a + BitVec.ofNat 64 (x - a).toNat) := by
      rw [Mem.write, dif_pos h8]
      show (refBytes v s (m.read a 8))[(x - a).toNat] = _
      rw [refBytes, Vector.getElem_ofFn, if_neg hx]
      show (m.read a 8)[(x - a).toNat] = _
      rw [Mem.read, Vector.getElem_ofFn]
    rw [hbyte, Mem.add_distance]
  · exact Mem.write_outside m a _ h8

/-- A write of the process that succeeds. -/
theorem processWriteData_of_ret {ft : Faults} {a : Addr} {data : Word} {w : World}
    (h : (processWriteData ft a data w).2 = 0) :
    (processWriteData ft a data w).1.mem = w.mem.write a data := by
  rw [processWriteData_ok a data ((processWriteData_ret a data w).mp h)]

/-- A successful `write_static_ref` writes the field and nothing else. -/
theorem writeStaticRef_ok {ft : Faults} {a : Addr} {v : BitVec 64} {s : Nat} {w : World}
    (hs : s = 4 ∨ s = 8) (h : (writeStaticRef ft a v s w).2 = 0) :
    ((writeStaticRef ft a v s w).1.mem.read a s).toList = Bytes.leBytes s v.toNat ∧
    ∀ x, ¬ (x - a).toNat < s → (writeStaticRef ft a v s w).1.mem x = w.mem x := by
  have hfront (m : Mem) (buf : Word) : ((m.write a (refBytes v s buf)).read a s).toList =
      Bytes.leBytes s v.toNat := by
    rw [Mem.read_write_front _ _ _ (by omega) (by decide), take_refBytes v (by omega)]
  rcases hs with rfl | rfl
  · rw [writeStaticRef, if_pos rfl, processReadData] at h ⊢
    by_cases hr : ft.read w.nread = 0
    · rw [if_pos hr] at h ⊢
      rw [processWriteData_of_ret h]
      exact ⟨hfront _ _, fun x hx => write_refBytes_outside w.mem a v 4 hx⟩
    · rw [if_neg hr] at h
      exact absurd h (by simpa using hr)
  · rw [writeStaticRef, if_neg (by decide)] at h ⊢
    rw [processWriteData_of_ret h]
    exact ⟨hfront _ _, fun x hx => Mem.write_outside w.mem a _ hx⟩

/-! ## The field -/

/-- A value that fits the field is what the field sign-extends to. -/
theorem signed_leBytes {v : BitVec 64} {s : Nat} (hs : s = 4 ∨ s = 8) (hfit : s = 8 ∨ FitsInt32 v) :
    Bytes.signed (Bytes.leBytes s v.toNat) = v := by
  have hlt := v.isLt
  rcases hs with rfl | rfl
  · have hfit : FitsInt32 v := hfit.resolve_left (by decide)
    rw [FitsInt32] at hfit
    rw [Bytes.signed, Bytes.length_leBytes, Bytes.leNat_leBytes]
    apply BitVec.eq_of_toInt_eq
    rw [BitVec.toInt_signExtend_of_le (by decide), BitVec.toInt_eq_toNat_cond, BitVec.toNat_ofNat]
    rw [BitVec.toInt_eq_toNat_cond] at hfit ⊢
    split <;> split <;> split at hfit <;> omega
  · rw [Bytes.signed_eight (by simp), Bytes.leNat_leBytes, Nat.mod_eq_of_lt (by exact hlt)]
    simp

section

variable (ctx : Ctx) (pdlm : DlMap) {s : Nat} (hs : s = 4 ∨ s = 8) (P x : BitVec 64)

theorem StaticRef.toStaticSym_eq : StaticRef.toStaticSym ⟨s, P.toNat, x.toNat⟩ =
    { patchSize := BitVec.ofNat 32 s, patchAddress := P, targetValue := x } := by
  simp [StaticRef.toStaticSym]

include hs

theorem refFits_iff :
    refFits ctx pdlm { patchSize := BitVec.ofNat 32 s, patchAddress := P, targetValue := x } =
      true ↔
      s = 8 ∨ FitsInt32 (x + dlmLoadBase ctx.targetDlm - dlmLoadBase pdlm) := by
  rw [refFits, decide_eq_true_iff]
  rcases hs with rfl | rfl
  · rw [← relocOverflows_four]
    simp
  · simp

/-- A reference of four or eight bytes after `apply_static_ref`.  It fails when
the value does not fit, or when a call into the process fails. -/
theorem applyStaticRef_field (ft : Faults) (w : World) :
    let ss : StaticSym := { patchSize := BitVec.ofNat 32 s, patchAddress := P, targetValue := x }
    let r := applyStaticRef ft ctx pdlm ss w
    let value := x + dlmLoadBase ctx.targetDlm - dlmLoadBase pdlm
    (r.2 = 0 ↔ (s = 8 ∨ FitsInt32 value) ∧ (s = 4 → ft.read w.nread = 0) ∧
      ft.write w.nwrite = 0) ∧
    (r.2 = 0 → Bytes.signed (r.1.mem.read (dlmLoadBase pdlm + P) s).toList = value ∧
      ∀ y, ¬ (y - (dlmLoadBase pdlm + P)).toNat < s → r.1.mem y = w.mem y) := by
  intro ss r value
  have hsize : ss.patchSize.toNat = s := by rcases hs with rfl | rfl <;> rfl
  have hreads : CallsOk ft.read w.nread (refReads ss) ↔ (s = 4 → ft.read w.nread = 0) := by
    rw [refReads, isShortRef, hsize]
    rcases hs with rfl | rfl
    · simp [callsOk_succ, callsOk_zero]
    · simp [callsOk_zero]
  have hret : r.2 = 0 ↔ (s = 8 ∨ FitsInt32 value) ∧ (s = 4 → ft.read w.nread = 0) ∧
      ft.write w.nwrite = 0 := by
    rw [← refFits_iff ctx pdlm hs P x, ← hreads]
    exact (applyStaticRef_ret ss w).1
  refine ⟨hret, fun h => ?_⟩
  obtain ⟨hfit, -⟩ := hret.mp h
  have hwrite : r = writeStaticRef ft (dlmLoadBase pdlm + P) value s w := by
    have hnot := decide_eq_true_iff.mp ((refFits_iff ctx pdlm hs P x).mpr hfit)
    show (if _ then _ else writeStaticRef ft _ _ ss.patchSize.toNat w) = _
    rw [if_neg hnot, hsize]
  rw [hwrite] at h ⊢
  obtain ⟨hfield, hframe⟩ := writeStaticRef_ok hs h
  exact ⟨by rw [hfield, signed_leBytes hs hfit], hframe⟩

end

/-- What the linker put into the field of a relocation: the bytes at `P` of the
patch sign-extend to `x`. -/
def LinkedField (sec : Section) (P : BitVec 64) (s : Nat) (x : BitVec 64) : Prop :=
  ∃ data, sec.read P.toNat s = .ok data ∧ Bytes.signed data = x

/-- The generator and the patcher agree.  Every PIC relocation of the patch whose
symbol has the addresses `D_new` and `D_old` gives a reference in the result of
`resolve`.  When the calls into the process succeed, `apply_static_ref` fails on
it exactly when the final distance does not fit the field.  Otherwise the field
leads to the symbol of the target, and no other byte has changed. -/
theorem static_ref_agrees {κ : Type} (ft : Faults) (ctx : Ctx) (pdlm : DlMap) (w : World)
    (oldAddr newAddr : κ → Except Raised (Option Nat)) (sec : Section) (funcNewAddr : Nat)
    (relocs : List (Reloc κ)) (refs : List StaticRef) (rel : Reloc κ) (key : κ)
    (D_new D_old P A : BitVec 64)
    (hresolve : resolveRelocs oldAddr newAddr sec funcNewAddr relocs = .ok refs)
    (hrel : rel ∈ relocs) (hpic : rel.relType.isPic = true) (hkey : rel.key = some key)
    (hold : oldAddr key = .ok (some D_old.toNat)) (hne : D_old ≠ 0)
    (hnew : newAddr key = .ok (some D_new.toNat)) (hP : funcNewAddr + rel.relOffset = P.toNat)
    (hlinked : LinkedField sec P rel.relType.size (D_new + A - P)) :
    ∃ ref ∈ refs, ref.relSize = rel.relType.size ∧ ref.patchAddress = P.toNat ∧
      let s := rel.relType.size
      let L_new := dlmLoadBase pdlm
      let L_old := dlmLoadBase ctx.targetDlm
      let r := applyStaticRef ft ctx pdlm ref.toStaticSym w
      (r.2 = 0 ↔ (s = 8 ∨ FitsInt32 (D_old + A - P + L_old - L_new)) ∧
        (s = 4 → ft.read w.nread = 0) ∧ ft.write w.nwrite = 0) ∧
      (r.2 = 0 →
        L_new + P + Bytes.signed (r.1.mem.read (L_new + P) s).toList = L_old + D_old + A ∧
        ∀ y, ¬ (y - (L_new + P)).toNat < s → r.1.mem y = w.mem y) := by
  obtain ⟨data, hread, hx⟩ := hlinked
  rw [← hP] at hread
  have hone := resolveReloc_linked hpic hkey hold hne hnew hread hx
  rw [hP] at hone
  have hvalue : D_new + A - P + D_old - D_new + dlmLoadBase ctx.targetDlm - dlmLoadBase pdlm =
      D_old + A - P + dlmLoadBase ctx.targetDlm - dlmLoadBase pdlm := by
    ring
  obtain ⟨hret, hok⟩ := applyStaticRef_field ctx pdlm rel.relType.size_cases P
    (D_new + A - P + D_old - D_new) ft w
  refine ⟨_, mem_resolveRelocs hresolve hrel hone, rfl, rfl, ?_⟩
  rw [StaticRef.toStaticSym_eq]
  rw [hvalue] at hret hok
  refine ⟨hret, fun h => ?_⟩
  obtain ⟨hfield, hframe⟩ := hok h
  refine ⟨?_, hframe⟩
  rw [hfield]
  ring

/-- `mov x(%rip), %eax; ret` in a patch, with `x` linked at `0x1000`. -/
def movCode : Section :=
  { shAddr := 0, shOffset := 0, stream := [0x8b, 0x05, 0xfa, 0x0f, 0, 0, 0xc3, 0x90] }

/-- The patch behind the small target. -/
def movPatch : DlMap :=
  { id := 1, path := some "patch.so", ei := twoPages 5 6
    execVma := some { addr := 0x402000, length := 0x1000, prot := 5 } }

/-- The variable is at `0x1040` in the target.  The addend is `-4`. -/
theorem mov_ref_agrees :
    resolveRelocs (fun _ => .ok (some 0x1040)) (fun _ => .ok (some 0x1000)) movCode 0
      [{ relType := .pc32, relOffset := 2, key := some () }] = .ok [⟨4, 2, 0x103a⟩] ∧
    let r := applyStaticRef {} smallCtx movPatch (StaticRef.toStaticSym ⟨4, 2, 0x103a⟩) smallWorld
    r.2 = 0 ∧ (0x402000 : BitVec 64) + 2 + Bytes.signed (r.1.mem.read 0x402002 4).toList =
      0x400000 + 0x1040 - 4 := by
  have hresolve : resolveRelocs (fun _ => .ok (some 0x1040)) (fun _ => .ok (some 0x1000)) movCode 0
      [{ relType := .pc32, relOffset := 2, key := some () }] = .ok [⟨4, 2, 0x103a⟩] := by
    decide +kernel
  obtain ⟨ref, href, -, -, hret, hfield⟩ := static_ref_agrees {} smallCtx movPatch smallWorld
    _ _ movCode 0 _ _ _ () 0x1000 0x1040 2 (-4) hresolve (List.mem_singleton_self _) rfl rfl rfl
    (by decide) rfl rfl ⟨[0xfa, 0x0f, 0, 0], by rfl, by decide⟩
  rw [List.mem_singleton.mp href] at hret hfield
  have h0 := hret.mpr (by decide)
  exact ⟨hresolve, h0, (hfield h0).1⟩

end Nsb
