import Nsb.Patcher.Apply
import Nsb.Patcher.RelocCoverage

/-!
# Addresses of a mapped patch

The values in a patch file are offsets from `dlm_load_base`, the start of the
executable segment.  `InImage` says in terms of the file that a value is in a
segment, and `PinnedAt.image` that it is in a mapping of the patch wherever the
patch is put.

`encodable_of_range` is what the range checks of `pin_elf_mmaps` are for: every
function of the target can jump to every address of the image.
-/

namespace Nsb

/-- `n` bytes inside of a mapping. -/
def Spans (l : List Vma) (a : Addr) (n : Nat) : Prop :=
  ∃ v ∈ l, v.addr.toNat ≤ a.toNat ∧ a.toNat + n ≤ v.addr.toNat + v.length.toNat

/-- `n` bytes from a value on are inside of a segment of the file. -/
def InImage (ei : ElfInfo) (v : BitVec 64) (n : Nat) : Prop :=
  ∃ x ∈ loadsOf ei.phdrs, x.exec = true ∧ ∃ s ∈ loadsOf ei.phdrs,
    segStart s ≤ segStart x + v.toNat ∧ segStart x + v.toNat + n ≤ segStart s + segLength s

instance (ei : ElfInfo) (v : BitVec 64) (n : Nat) : Decidable (InImage ei v n) :=
  inferInstanceAs (Decidable
    (∃ x ∈ loadsOf ei.phdrs, x.exec = true ∧ ∃ s ∈ loadsOf ei.phdrs, _ ∧ _))

variable {ei : ElfInfo} {a : Addr} {dlm : DlMap}

/-- The base of a mapped patch is its executable segment. -/
theorem PinnedAt.base (h : PinnedAt ei a dlm) (hdyn : elfTypeDyn ei = true) {x : Phdr}
    (hx : x ∈ loadsOf ei.phdrs) (hexec : x.exec = true) :
    (dlmLoadBase dlm).toNat = a.toNat + segStart x := by
  have hmem : pinElfMmap a (createElfVma x) ∈ dlm.vmas := by
    rw [h.vmas]
    exact List.mem_map_of_mem hx
  have hvma : dlm.execVma = some (pinElfMmap a (createElfVma x)) :=
    (h.ok.exec _).mpr ⟨hmem, (isExec_createElfVma x).trans hexec⟩
  rw [dlmLoadBase, h.ei_eq, hdyn, hvma]
  exact h.addr x hx

/-- A value of the file is in the mapped patch. -/
theorem PinnedAt.image (h : PinnedAt ei a dlm) (file : PatchFile ei) (hdyn : elfTypeDyn ei = true)
    {v : BitVec 64} {n : Nat} (hv : InImage ei v n) :
    ∃ s ∈ loadsOf ei.phdrs, a.toNat + segStart s ≤ (dlmLoadBase dlm + v).toNat ∧
      (dlmLoadBase dlm + v).toNat + n ≤ a.toNat + segStart s + segLength s := by
  obtain ⟨x, hx, hexec, s, hs, hlo, hhi⟩ := hv
  have hbase := h.base hdyn hx hexec
  have hlow := h.low
  obtain ⟨-, -, -, -, -, hend⟩ := file.pages hs
  have hsum : (dlmLoadBase dlm + v).toNat = a.toNat + segStart x + v.toNat := by
    rw [BitVec.toNat_add, hbase, Nat.mod_eq_of_lt (by omega)]
  exact ⟨s, hs, by omega, by omega⟩

theorem PinnedAt.spans (h : PinnedAt ei a dlm) (file : PatchFile ei) (hdyn : elfTypeDyn ei = true)
    {v : BitVec 64} {n : Nat} (hv : InImage ei v n) : Spans dlm.vmas (dlmLoadBase dlm + v) n := by
  obtain ⟨s, hs, hlo, hhi⟩ := h.image file hdyn hv
  refine ⟨pinElfMmap a (createElfVma s), ?_, ?_, ?_⟩
  · rw [h.vmas]
    exact List.mem_map_of_mem hs
  · rw [h.addr s hs]
    exact hlo
  · have hlen : (pinElfMmap a (createElfVma s)).length.toNat = segLength s := rfl
    rw [h.addr s hs, hlen]
    exact hhi

/-! ## What `load_patch` makes -/

theorem createElfMmapsLoop_path :
    ∀ (phdrs : List (Option Phdr)) (err : Int) (d : DlMap),
      (createElfMmapsLoop phdrs err d).1.path = d.path
  | [], err, d => by
      rw [createElfMmapsLoop]
      split <;> rfl
  | none :: _, _, _ => rfl
  | some phdr :: l, err, d => by
      rw [createElfMmapsLoop]
      split
      · exact createElfMmapsLoop_path l err d
      · split
        · rfl
        · rename_i d' hadd
          rw [createElfMmapsLoop_path l 0 d']
          rw [addDlVmaSorted_eq] at hadd
          split at hadd
          · cases hadd
          · cases hsorted : addVmaSorted d.vmas (createElfVma phdr) with
            | error e => rw [hsorted] at hadd; cases hadd
            | ok l' => rw [hsorted] at hadd; cases hadd; rfl

/-- The loaded patch has the path of its file. -/
theorem Loads.path {ft : Faults} {ctx : Ctx} {w : World} (h : Loads ft ctx w dlm) :
    dlm.path = some ctx.patchfile := by
  obtain ⟨⟨dlm₁, hcreate, hpin⟩, -⟩ := h
  obtain ⟨hdlm, -⟩ := pinElfMmaps_ok hpin
  have hpath := createElfMmapsLoop_path (patchObject ctx).ei.phdrs (-1) (patchObject ctx)
  have hloop : createElfMmapsLoop (patchObject ctx).ei.phdrs (-1) (patchObject ctx) = (dlm₁, 0) :=
    hcreate
  rw [hloop] at hpath
  rw [hdlm]
  exact hpath

/-! ## Jumps into the image -/

/-- Every mapping of an object is between its start and its end. -/
theorem AddressSpace.bounds (space : AddressSpace dlm.vmas) {v : Vma} (hv : v ∈ dlm.vmas) :
    (dlMapStart dlm).toNat ≤ v.addr.toNat ∧
      v.addr.toNat + v.length.toNat ≤ (dlMapEnd dlm).toNat := by
  constructor
  · cases hl : dlm.vmas with
    | nil => rw [hl] at hv; cases hv
    | cons u l =>
        have hstart : dlMapStart dlm = u.addr := by rw [dlMapStart, firstDlVma, hl]; rfl
        rw [hstart]
        rw [hl] at hv
        rcases List.mem_cons.mp hv with rfl | hmem
        · exact Nat.le_refl _
        · have hbelow : u.Below v := List.rel_of_pairwise_cons (hl ▸ space.below) hmem
          rw [Vma.Below] at hbelow
          omega
  · rcases List.eq_nil_or_concat dlm.vmas with hl | ⟨l, u, hl⟩
    · rw [hl] at hv; cases hv
    · rw [List.concat_eq_append] at hl
      have hu : u ∈ dlm.vmas := by rw [hl]; simp
      have hend : dlMapEnd dlm = vmaEnd u := by
        rw [dlMapEnd, lastDlVma, hl, List.getLast?_concat]
        rfl
      rw [hend, vmaEnd_toNat (space.top u hu)]
      rw [hl] at hv
      rcases List.mem_append.mp hv with hmem | hmem
      · have hbelow : v.Below u :=
          (List.pairwise_append.mp (hl ▸ space.below)).2.2 v hmem u (List.mem_singleton_self _)
        rw [Vma.Below] at hbelow
        omega
      · rw [List.mem_singleton.mp hmem]

/-- An image that passed the range checks can be jumped to from the target. -/
theorem encodable_of_range {x p : Addr} {size : BitVec 64} (space : AddressSpace dlm.vmas)
    (hx : Inside dlm.vmas x) (hlow : a.toNat < 2 ^ 63) (hsize : size.toNat < 2 ^ 47)
    (hlo : a.toNat ≤ p.toNat) (hhi : p.toNat < a.toNat + size.toNat)
    (h1 : dlMapCheckJumpRange dlm a = 0) (h2 : dlMapCheckJumpRange dlm (a + size) = 0) :
    Encodable x p := by
  obtain ⟨v, hv, hv1, hv2⟩ := hx
  obtain ⟨hstart, hend⟩ := space.bounds hv
  have hsum : (a + size).toNat = a.toNat + size.toNat := by
    rw [BitVec.toNat_add, Nat.mod_eq_of_lt (by omega)]
  refine encodable_of_checked h1 h2 ?_ ?_ hlo ?_
  · rw [BitVec.le_def]
    omega
  · omega
  · rw [BitVec.lt_def, hsum]
    exact hhi

end Nsb
