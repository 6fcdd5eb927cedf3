import Nsb.Patcher.Apply

/-!
# The image in the hole

`pin_elf_mmaps` looks for a hole of the size of the image, from the first page of
its lowest segment to the last page of its highest one.  Then `pin_elf_mmap` adds
the hole to the absolute `p_vaddr` of each segment.

So the image keeps its shape, but it starts at the hole only when its lowest segment
is on page zero.  With any other file it is moved up by its lowest page, and its
end leaves the hole (`pinElfMmaps_keepsImage_iff`).
-/

namespace Nsb

/-- The number of the page that the bytes of a segment end in front of. -/
def pagesEnd (p : Phdr) : Nat := (p.pVaddr.toNat + p.pFilesz.toNat + 0xfff) / 0x1000

/-- A patch file: the segments are in ascending order, share no page, and each lies
in its pages as in those of the file.  None reaches the last page of the address
space. -/
structure SegmentedFile (ei : ElfInfo) : Prop where
  readable : ∀ o ∈ ei.phdrs, o ≠ none
  ascending : (loadsOf ei.phdrs).Pairwise fun p q => p.pVaddr < q.pVaddr
  apart : (loadsOf ei.phdrs).Pairwise fun p q => pagesEnd p ≤ q.pVaddr.toNat / 0x1000
  congruent : ∀ p ∈ loadsOf ei.phdrs, p.pOffset.toNat % 0x1000 = p.pVaddr.toNat % 0x1000
  fits : ∀ p ∈ loadsOf ei.phdrs, p.pVaddr.toNat + p.pFilesz.toNat + 0x1000 ≤ 2 ^ 64

/-- The mapping has the byte of the file at `offset` at address `x`.  `mmap` works on
whole pages of memory and of the file. -/
structure MapsByte (v : Vma) (x : Addr) (offset : BitVec 64) : Prop where
  inside : (x - v.addr).toNat < v.length.toNat
  pages : elfPageOffset v.addr = 0 ∧ elfPageOffset v.offset = 0
  offset : v.offset + (x - v.addr) = offset

/-- The mappings are in the `size` bytes from the hole on and apart from each other,
and with one bias they have the bytes of the segments.  Places in the hole are
counted from its start. -/
structure KeepsImage (ei : ElfInfo) (hole : Addr) (size : BitVec 64) (vmas : List Vma) :
    Prop where
  inside : ∀ v ∈ vmas, (v.addr - hole).toNat + v.length.toNat ≤ size.toNat
  apart : vmas.Pairwise fun u v => ∀ i j : BitVec 64, i < u.length → j < v.length →
    u.addr + i ≠ v.addr + j
  image : ∃ b : Addr, List.Forall₂
    (fun p v => ∀ i : BitVec 64, i < p.pFilesz → MapsByte v (b + p.pVaddr + i) (p.pOffset + i))
    (loadsOf ei.phdrs) vmas

/-! ## The pages of a segment -/

/-- A segment takes the pages from that of its first byte up to `pages_end`. -/
theorem segment_span {p : Phdr} (h : p.pVaddr.toNat + p.pFilesz.toNat + 0x1000 ≤ 2 ^ 64) :
    segStart p = p.pVaddr.toNat / 0x1000 * 0x1000 ∧
      segStart p + segLength p = pagesEnd p * 0x1000 := by
  obtain ⟨hstart, hlen⟩ := segment_toNat h
  rw [pagesEnd]
  omega

variable {ei : ElfInfo}

theorem SegmentedFile.strictlySorted (h : SegmentedFile ei) :
    StrictlySorted ((loadsOf ei.phdrs).map createElfVma) :=
  List.pairwise_map.mpr h.ascending

theorem SegmentedFile.span (h : SegmentedFile ei) {p : Phdr} (hp : p ∈ loadsOf ei.phdrs) :
    segStart p = p.pVaddr.toNat / 0x1000 * 0x1000 ∧
      segStart p + segLength p = pagesEnd p * 0x1000 ∧ pagesEnd p * 0x1000 + 0x1000 ≤ 2 ^ 64 := by
  have hfits := h.fits p hp
  obtain ⟨h1, h2⟩ := segment_span hfits
  refine ⟨h1, h2, ?_⟩
  rw [pagesEnd]
  omega

/-- No segment ends behind the last one. -/
theorem SegmentedFile.end_le (h : SegmentedFile ei) {last p : Phdr}
    (hlast : (loadsOf ei.phdrs).getLast? = some last) (hp : p ∈ loadsOf ei.phdrs) :
    segStart p + segLength p ≤ segStart last + segLength last := by
  obtain ⟨-, he, -⟩ := h.span hp
  obtain ⟨hs, he', -⟩ := h.span (List.mem_of_getLast? hlast)
  obtain ⟨init, hinit⟩ := List.getLast?_eq_some_iff.mp hlast
  rw [hinit] at hp
  rcases List.mem_append.mp hp with hmem | hmem
  · have hapart := h.apart
    rw [hinit] at hapart
    have hle := (List.pairwise_append.mp hapart).2.2 p hmem last (List.mem_singleton_self _)
    omega
  · rw [List.mem_singleton.mp hmem]

/-- No segment starts in front of the first one. -/
theorem SegmentedFile.start_le (h : SegmentedFile ei) {first p : Phdr}
    (hfirst : (loadsOf ei.phdrs).head? = some first) (hp : p ∈ loadsOf ei.phdrs) :
    segStart first ≤ segStart p := by
  obtain ⟨hs, -, -⟩ := h.span (List.mem_of_head? hfirst)
  obtain ⟨hs', -, -⟩ := h.span hp
  obtain ⟨rest, hrest⟩ := List.head?_eq_some_iff.mp hfirst
  rw [hrest] at hp
  rcases List.mem_cons.mp hp with rfl | hmem
  · exact Nat.le_refl _
  · have hascending := h.ascending
    rw [hrest] at hascending
    have hlt : first.pVaddr.toNat < p.pVaddr.toNat := List.rel_of_pairwise_cons hascending hmem
    omega

/-- The searched size is that between the lowest page of the image and its end. -/
theorem SegmentedFile.loadSize_toNat (h : SegmentedFile ei) {dlm : DlMap}
    (hv : dlm.vmas = (loadsOf ei.phdrs).map createElfVma) {first last : Phdr}
    (hfirst : (loadsOf ei.phdrs).head? = some first)
    (hlast : (loadsOf ei.phdrs).getLast? = some last) :
    segStart first + (loadSize dlm).toNat = segStart last + segLength last := by
  have hmem : last ∈ loadsOf ei.phdrs := List.mem_of_getLast? hlast
  obtain ⟨hs, he, hb⟩ := h.span hmem
  have hend : (elfPageStart (dlMapEnd dlm)).toNat = segStart last + segLength last := by
    have hlen : (createElfVma last).length.toNat = segLength last := rfl
    have haddr : (createElfVma last).addr.toNat = last.pVaddr.toNat := rfl
    have hvma : dlMapEnd dlm = vmaEnd (createElfVma last) := by
      simp [dlMapEnd, lastDlVma, hv, List.getLast?_map, hlast]
    rw [hvma, elfPageStart_toNat, vmaEnd_toNat (by rw [hlen, haddr]; omega), hlen, haddr]
    omega
  have hstart : (elfPageStart (dlMapStart dlm)).toNat = segStart first := by
    have hvma : dlMapStart dlm = first.pVaddr := by
      simp [dlMapStart, firstDlVma, hv, hfirst, vmaStart, createElfVma]
    rw [hvma, segStart]
  have hle : segStart first ≤ segStart last + segLength last := by
    have hbelow := h.start_le hfirst hmem
    omega
  rw [loadSize, BitVec.toNat_sub_of_le (by rw [BitVec.le_def, hend, hstart]; exact hle)]
  omega

/-! ## The moved segments -/

variable {hole : Addr} {p q : Phdr}

/-- A segment is moved to the hole plus the start of its page. -/
theorem pinElfMmap_addr (hhole : elfPageOffset hole = 0) (p : Phdr) :
    (pinElfMmap hole (createElfVma p)).addr = hole + elfPageStart p.pVaddr :=
  pageStart_add hhole

theorem pinElfMmap_offset_in_hole (hhole : elfPageOffset hole = 0) (p : Phdr) :
    ((pinElfMmap hole (createElfVma p)).addr - hole).toNat = segStart p := by
  rw [pinElfMmap_addr hhole, add_sub_cancel_left]
  rfl

/-- The bytes of a segment, with the hole as the bias. -/
theorem SegmentedFile.mapsByte (h : SegmentedFile ei) (hhole : elfPageOffset hole = 0)
    (hp : p ∈ loadsOf ei.phdrs) {i : BitVec 64} (hi : i < p.pFilesz) :
    MapsByte (pinElfMmap hole (createElfVma p)) (hole + p.pVaddr + i) (p.pOffset + i) := by
  have hfits := h.fits p hp
  have hcong := h.congruent p hp
  obtain ⟨hs, he, -⟩ := h.span hp
  have hi' : i.toNat < p.pFilesz.toNat := hi
  have hoff := elfPageOffset_toNat p.pVaddr
  have hrel : hole + p.pVaddr + i - (pinElfMmap hole (createElfVma p)).addr =
      elfPageOffset p.pVaddr + i := by
    have hsum : elfPageStart p.pVaddr + elfPageOffset p.pVaddr = p.pVaddr :=
      Bits.and_not_add_and ..
    rw [pinElfMmap_addr hhole]
    nth_rewrite 1 [← hsum]
    rw [← BitVec.add_assoc, BitVec.add_assoc _ (elfPageOffset _), add_sub_cancel_left]
  refine ⟨?_, ⟨?_, ?_⟩, ?_⟩
  · rw [hrel, BitVec.toNat_add, hoff]
    show _ < segLength p
    rw [pagesEnd] at he
    omega
  · apply elfPageOffset_eq_zero
    have hstart := elfPageStart_toNat p.pVaddr
    have hzero : hole.toNat % 2 ^ 12 = 0 := by rw [← elfPageOffset_toNat, hhole]; rfl
    rw [pinElfMmap_addr hhole, BitVec.toNat_add, hstart]
    omega
  · apply elfPageOffset_eq_zero
    show (p.pOffset - elfPageOffset p.pVaddr).toNat % 2 ^ 12 = 0
    rw [BitVec.toNat_sub, hoff]
    omega
  · rw [hrel]
    show p.pOffset - elfPageOffset p.pVaddr + _ = _
    rw [← BitVec.add_assoc, BitVec.sub_add_cancel]

/-- Different segments have no address in common. -/
theorem SegmentedFile.pinned_apart (h : SegmentedFile ei) (hhole : elfPageOffset hole = 0) :
    ((loadsOf ei.phdrs).map fun p => pinElfMmap hole (createElfVma p)).Pairwise
      fun u v => ∀ i j : BitVec 64, i < u.length → j < v.length → u.addr + i ≠ v.addr + j := by
  refine List.pairwise_map.mpr (h.apart.imp_of_mem ?_)
  intro p q hp hq hle i j hi hj heq
  obtain ⟨-, hpe, -⟩ := h.span hp
  obtain ⟨hqs, hqe, hqb⟩ := h.span hq
  have hi' : i.toNat < segLength p := hi
  have hj' : j.toNat < segLength q := hj
  rw [pinElfMmap_addr hhole, pinElfMmap_addr hhole, BitVec.add_assoc, BitVec.add_assoc] at heq
  have hsame := congrArg BitVec.toNat ((BitVec.add_right_inj _).mp heq)
  rw [BitVec.toNat_add, BitVec.toNat_add] at hsame
  have hps : (elfPageStart p.pVaddr).toNat = segStart p := rfl
  have hqs' : (elfPageStart q.pVaddr).toNat = segStart q := rfl
  omega

/-- The image in the hole, when the lowest segment is on page zero. -/
theorem SegmentedFile.keepsImage (h : SegmentedFile ei) (hhole : elfPageOffset hole = 0)
    {size : BitVec 64}
    (hsize : ∀ p ∈ loadsOf ei.phdrs, segStart p + segLength p ≤ size.toNat) :
    KeepsImage ei hole size ((loadsOf ei.phdrs).map fun p => pinElfMmap hole (createElfVma p)) where
  inside := by
    intro v hv
    obtain ⟨p, hp, rfl⟩ := List.mem_map.mp hv
    rw [pinElfMmap_offset_in_hole hhole]
    exact hsize p hp
  apart := h.pinned_apart hhole
  image := by
    refine ⟨hole, List.forall₂_map_right_iff.mpr (List.forall₂_same.mpr ?_)⟩
    intro p hp i hi
    exact h.mapsByte hhole hp hi

/-- A patch stays in its hole and keeps its image exactly when its lowest segment is
on page zero. -/
theorem pinElfMmaps_keepsImage_iff (ctx : Ctx) (id : Nat) (path : Option String)
    {dlm₁ dlm : DlMap} (file : SegmentedFile ei)
    (hcreate : createElfMmaps (allocDlMap id ei path) = (dlm₁, 0))
    (hpin : pinElfMmaps ctx dlm₁ = (dlm, 0))
    (hhole : elfPageOffset (BitVec.ofInt 64 (findPlace ctx dlm₁)) = 0) :
    KeepsImage ei (BitVec.ofInt 64 (findPlace ctx dlm₁)) (loadSize dlm₁) dlm.vmas ↔
      ∀ p ∈ (loadsOf ei.phdrs).head?, p.pVaddr.toNat < 0x1000 := by
  obtain ⟨-, hvmas, hne, -⟩ := createElfMmaps_created file.readable file.strictlySorted hcreate
  obtain ⟨hdlm, -, -⟩ := pinElfMmaps_ok hpin
  have hpinned : dlm.vmas = (loadsOf ei.phdrs).map fun p =>
      pinElfMmap (BitVec.ofInt 64 (findPlace ctx dlm₁)) (createElfVma p) := by
    rw [hdlm]
    show dlm₁.vmas.map (pinElfMmap _) = _
    rw [hvmas, List.map_map]
    rfl
  have hloads : loadsOf ei.phdrs ≠ [] := by
    intro hnil
    rw [hvmas, hnil] at hne
    exact hne rfl
  obtain ⟨first, hfirst⟩ : ∃ p, (loadsOf ei.phdrs).head? = some p :=
    ⟨_, List.head?_eq_some_head hloads⟩
  obtain ⟨last, hlast⟩ : ∃ p, (loadsOf ei.phdrs).getLast? = some p :=
    ⟨_, List.getLast?_eq_some_getLast hloads⟩
  have hlastMem := List.mem_of_getLast? hlast
  have hsize := file.loadSize_toNat hvmas hfirst hlast
  obtain ⟨hstart, -, -⟩ := file.span (List.mem_of_head? hfirst)
  rw [hpinned]
  constructor
  · intro hkeeps p hp
    rw [hfirst] at hp
    cases hp
    -- the last segment ends at its link-time place in the hole
    have hin := hkeeps.inside _ (List.mem_map_of_mem hlastMem)
    rw [pinElfMmap_offset_in_hole hhole] at hin
    have hin' : segStart last + segLength last ≤ (loadSize dlm₁).toNat := hin
    omega
  · intro hzero
    have hpage := hzero first hfirst
    refine file.keepsImage hhole fun p hp => ?_
    have hle := file.end_le hlast hp
    omega

/-- The patch of two pages in its place behind the target. -/
theorem twoPages_keepsImage :
    ∃ dlm₁ dlm, createElfMmaps (allocDlMap 1 (twoPages 5 6) none) = (dlm₁, 0) ∧
      pinElfMmaps smallCtx dlm₁ = (dlm, 0) ∧
      KeepsImage (twoPages 5 6) 0x402000 (loadSize dlm₁) dlm.vmas := by
  have file : SegmentedFile (twoPages 5 6) :=
    ⟨by decide, by decide, by decide, by decide, by decide⟩
  refine ⟨_, _, rfl, rfl, ?_⟩
  refine (pinElfMmaps_keepsImage_iff smallCtx 1 none file rfl rfl (by decide)).mpr ?_
  intro p hp
  cases hp
  decide

/-- A patch of one page with link-time address `0x10000`. -/
def prelinked : ElfInfo :=
  { phdrs := [some { pFlags := 5, pOffset := 0, pVaddr := 0x10000, pFilesz := 0x1000 }] }

/-- The hole is one page at `0x402000`, and the patch is mapped at `0x412000`. -/
theorem prelinked_leaves_hole :
    SegmentedFile prelinked ∧
      ∃ dlm₁ dlm, createElfMmaps (allocDlMap 1 prelinked none) = (dlm₁, 0) ∧
        pinElfMmaps smallCtx dlm₁ = (dlm, 0) ∧ findPlace smallCtx dlm₁ = 0x402000 ∧
        loadSize dlm₁ = 0x1000 ∧ dlm.vmas.map Vma.range = [(0x412000, 0x1000)] ∧
        ¬ KeepsImage prelinked 0x402000 (loadSize dlm₁) dlm.vmas := by
  refine ⟨⟨by decide, by decide, by decide, by decide, by decide⟩,
    _, _, rfl, rfl, by decide, by decide, by decide, fun h => ?_⟩
  exact absurd (h.inside _ (List.mem_cons_self ..)) (by decide)

end Nsb
