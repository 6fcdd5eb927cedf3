import Nsb.Patcher.Collect
import Nsb.Patcher.LoadBase

/-!
# Where a patch is mapped

`process_find_place_for_elf` looks for a gap between two mappings and
`pin_elf_mmaps` moves the segments of the patch there.  Nothing that is mapped
may be in the way, since the segments are mapped with `MAP_FIXED`.

`processFindPlaceForElf_hole` says that the place is a gap of the requested size.
The requested size is that of the whole image, so an image that starts on page
zero fits into the gap (`pinElfMmaps_placed`).
-/

namespace Nsb

/-! ## Address spaces -/

/-- One mapping ends before the other one starts. -/
def Vma.Below (u v : Vma) : Prop := u.addr.toNat + u.length.toNat ≤ v.addr.toNat

instance (u v : Vma) : Decidable (u.Below v) := inferInstanceAs (Decidable (_ ≤ _))

/-- The mappings of a process as the kernel keeps them: in order, apart from each
other, and made of whole pages. -/
structure AddressSpace (l : List Vma) : Prop where
  below : l.Pairwise Vma.Below
  nonempty : ∀ v ∈ l, 0 < v.length.toNat
  aligned : ∀ v ∈ l, v.addr.toNat % 2 ^ 12 = 0 ∧ v.length.toNat % 2 ^ 12 = 0
  top : ∀ v ∈ l, v.addr.toNat + v.length.toNat < 2 ^ 64

instance (l : List Vma) : Decidable (AddressSpace l) :=
  decidable_of_iff (l.Pairwise Vma.Below ∧ (∀ v ∈ l, 0 < v.length.toNat) ∧
      (∀ v ∈ l, v.addr.toNat % 2 ^ 12 = 0 ∧ v.length.toNat % 2 ^ 12 = 0) ∧
      ∀ v ∈ l, v.addr.toNat + v.length.toNat < 2 ^ 64)
    ⟨fun ⟨h1, h2, h3, h4⟩ => ⟨h1, h2, h3, h4⟩, fun h => ⟨h.below, h.nonempty, h.aligned, h.top⟩⟩

theorem vmaEnd_toNat {v : Vma} (h : v.addr.toNat + v.length.toNat < 2 ^ 64) :
    (vmaEnd v).toNat = v.addr.toNat + v.length.toNat := by
  rw [vmaEnd, BitVec.toNat_add, Nat.mod_eq_of_lt h]

/-- Where a mapping is. -/
def Vma.range (v : Vma) : Addr × BitVec 64 := (v.addr, v.length)

/-- Only the ranges matter, and some of them may be missing. -/
theorem AddressSpace.mono {l l' : List Vma} (h : AddressSpace l)
    (hs : (l'.map Vma.range).Sublist (l.map Vma.range)) : AddressSpace l' := by
  have hall : ∀ P : Addr × BitVec 64 → Prop, (∀ v ∈ l, P v.range) → ∀ v ∈ l', P v.range := by
    intro P hl v hv
    obtain ⟨u, hu, hr⟩ := List.mem_map.mp (hs.subset (List.mem_map_of_mem hv))
    rw [← hr]
    exact hl u hu
  constructor
  · have hpair : (l.map Vma.range).Pairwise fun r r' => r.1.toNat + r.2.toNat ≤ r'.1.toNat :=
      List.pairwise_map.mpr h.below
    have hpair' := hpair.sublist hs
    rw [List.pairwise_map] at hpair'
    exact hpair'
  · exact hall (fun r => 0 < r.2.toNat) h.nonempty
  · exact hall (fun r => r.1.toNat % 2 ^ 12 = 0 ∧ r.2.toNat % 2 ^ 12 = 0) h.aligned
  · exact hall (fun r => r.1.toNat + r.2.toNat < 2 ^ 64) h.top

theorem AddressSpace.congr {l l' : List Vma} (h : AddressSpace l)
    (heq : l'.map Vma.range = l.map Vma.range) : AddressSpace l' :=
  h.mono (heq ▸ List.Sublist.refl _)

theorem AddressSpace.sublist {l l' : List Vma} (h : AddressSpace l) (hs : l'.Sublist l) :
    AddressSpace l' :=
  h.mono (hs.map _)

theorem AddressSpace.strictlySorted {l : List Vma} (h : AddressSpace l) : StrictlySorted l := by
  refine h.below.imp_of_mem fun {u v} hu _ hbelow => ?_
  have hpos := h.nonempty u hu
  rw [Vma.Below] at hbelow
  rw [BitVec.lt_def]
  omega

/-- Two mappings are the same or apart. -/
theorem AddressSpace.below_or {l : List Vma} (h : AddressSpace l) {u v : Vma} (hu : u ∈ l)
    (hv : v ∈ l) (hne : u ≠ v) : u.Below v ∨ v.Below u := by
  have hpair : l.Pairwise fun u v => u.Below v ∨ v.Below u := h.below.imp Or.inl
  have : Std.Symm fun u v : Vma => u.Below v ∨ v.Below u := ⟨fun _ _ => Or.symm⟩
  exact hpair.forall hu hv hne

/-- Mappings that fit between others. -/
theorem AddressSpace.insert {front l back : List Vma} (h : AddressSpace (front ++ back))
    (hl : AddressSpace l) (hf : ∀ u ∈ front, ∀ v ∈ l, u.Below v)
    (hb : ∀ v ∈ l, ∀ u ∈ back, v.Below u) : AddressSpace (front ++ l ++ back) := by
  obtain ⟨hfront, hback, hcross⟩ := List.pairwise_append.mp h.below
  have hall : ∀ P : Vma → Prop, (∀ v ∈ front ++ back, P v) → (∀ v ∈ l, P v) →
      ∀ v ∈ front ++ l ++ back, P v := by
    intro P hfb hl v hv
    rcases List.mem_append.mp hv with hv | hv
    · rcases List.mem_append.mp hv with hv | hv
      · exact hfb v (List.mem_append_left _ hv)
      · exact hl v hv
    · exact hfb v (List.mem_append_right _ hv)
  constructor
  · refine List.pairwise_append.mpr ⟨List.pairwise_append.mpr ⟨hfront, hl.below, hf⟩, hback, ?_⟩
    intro u hu v hv
    rcases List.mem_append.mp hu with hu | hu
    · exact hcross u hu v hv
    · exact hb u hu v hv
  · exact hall _ h.nonempty hl.nonempty
  · exact hall _ h.aligned hl.aligned
  · exact hall _ h.top hl.top

/-! ## The hole -/

/-- The `size` bytes at `a` lie between the mappings of `front` and those of
`back`. -/
structure HoleAt (l : List Vma) (a size : BitVec 64) (front back : List Vma) : Prop where
  split : l = front ++ back
  front : ∀ u ∈ front, u.addr.toNat + u.length.toNat ≤ a.toNat
  back : ∀ u ∈ back, a.toNat + size.toNat ≤ u.addr.toNat

/-- The hole behind a mapping that `find_hole` accepts. -/
theorem findHole_true {hint size : BitVec 64} {vma : Vma} {nextStart a : Addr}
    {lastDl : Option Vma} (h : findHole hint size vma nextStart lastDl = (some a, true)) :
    (a = hint ∨ a = vmaEnd vma) ∧ hint ≤ a ∧ vmaEnd vma ≤ a ∧ hint ≤ nextStart ∧
      size ≤ nextStart - a := by
  simp only [findHole] at h
  split at h
  · cases h
  · rename_i hnext
    split at h
    · cases h
    · obtain ⟨ha, hsize⟩ := Prod.mk.inj h
      have hsize := of_decide_eq_true hsize
      split at ha
      · rename_i hlt
        cases ha
        rw [if_pos hlt] at hsize
        exact ⟨.inl rfl, BitVec.le_refl _, BitVec.le_of_lt hlt, BitVec.not_lt.mp hnext, hsize⟩
      · rename_i hge
        cases ha
        rw [if_neg hge] at hsize
        exact ⟨.inr rfl, BitVec.not_lt.mp hge, BitVec.le_refl _, BitVec.not_lt.mp hnext, hsize⟩

/-- The mapping behind which `process_find_place_for_elf` finds its hole: the
first one that `find_hole` accepts. -/
def holeVma (lastDl : Vma → Option Vma) (sentinel : Addr) (hint size : BitVec 64) :
    List Vma → Option Vma
  | [] => none
  | vma :: l =>
      if (findHole hint size vma ((l.head?.map vmaStart).getD sentinel) (lastDl vma)).2 then
        some vma
      else holeVma lastDl sentinel hint size l

/-- `find_hole` only accepts when it has set the address. -/
theorem findHole_accepts {hint size : BitVec 64} {vma : Vma} {nextStart : Addr}
    {lastDl : Option Vma} (h : (findHole hint size vma nextStart lastDl).2 = true) :
    ∃ a, findHole hint size vma nextStart lastDl = (some a, true) := by
  simp only [findHole] at h ⊢
  split at h
  · cases h
  · split at h
    · cases h
    · rename_i hnext hlast
      rw [if_neg hnext, if_neg hlast]
      exact ⟨_, congrArg (Prod.mk _) h⟩

/-- The gap behind an accepted mapping ends at the next one, which is the lowest of
the rest. -/
theorem holeAt_of_accepts {hint size : BitVec 64} {vma : Vma} {l : List Vma} {sentinel a : Addr}
    {lastDl : Option Vma} (space : AddressSpace (vma :: l))
    (h : findHole hint size vma ((l.head?.map vmaStart).getD sentinel) lastDl = (some a, true)) :
    HoleAt (vma :: l) a size [vma] l := by
  obtain ⟨hwhere, -, hend, hnext, hsize⟩ := findHole_true h
  have htop := vmaEnd_toNat (space.top vma (List.mem_cons_self ..))
  refine ⟨rfl, ?_, ?_⟩
  · rw [List.forall_mem_singleton, ← htop]
    exact hend
  · cases l with
    | nil => exact fun u hu => by cases hu
    | cons next rest =>
        have hgap : a.toNat + size.toNat ≤ next.addr.toNat := by
          have hbelow : vma.addr.toNat + vma.length.toNat ≤ next.addr.toNat :=
            List.rel_of_pairwise_cons space.below (List.mem_cons_self ..)
          simp only [List.head?_cons, Option.map_some, Option.getD_some, vmaStart] at hnext hsize
          have hle : a ≤ next.addr := by
            rcases hwhere with rfl | rfl
            · exact hnext
            · rw [BitVec.le_def, htop]
              exact hbelow
          bv_omega
        intro u hu
        rcases List.mem_cons.mp hu with rfl | hrest
        · exact hgap
        · have hbelow : next.addr.toNat + next.length.toNat ≤ u.addr.toNat :=
            List.rel_of_pairwise_cons (space.sublist (List.sublist_cons_self ..)).below hrest
          omega

/-- A mapping in front of the list is in front of the hole. -/
theorem HoleAt.cons {vma : Vma} {l front back : List Vma} {a size : BitVec 64}
    (space : AddressSpace (vma :: l)) (h : HoleAt l a size front back) (hne : front ≠ []) :
    HoleAt (vma :: l) a size (vma :: front) back := by
  refine ⟨by rw [List.cons_append, ← h.split], List.forall_mem_cons.mpr ⟨?_, h.front⟩, h.back⟩
  obtain ⟨u, hu⟩ := List.exists_mem_of_ne_nil front hne
  have hmem : u ∈ l := by
    rw [h.split]
    exact List.mem_append_left _ hu
  have hbelow : vma.addr.toNat + vma.length.toNat ≤ u.addr.toNat :=
    List.rel_of_pairwise_cons space.below hmem
  have hfront := h.front u hu
  omega

/-- The place that `process_find_place_for_elf` picks is a hole, and it starts at
the hint or at the end of a mapping. -/
theorem processFindPlaceForElf_hole {lastDl : Vma → Option Vma} {sentinel : Addr}
    {hint size : BitVec 64} {l : List Vma} (space : AddressSpace l)
    (h : 0 ≤ processFindPlaceForElf lastDl sentinel hint size l) :
    ∃ a front back, processFindPlaceForElf lastDl sentinel hint size l = a.toInt ∧
      HoleAt l a size front back ∧
      (∃ init v, front = init ++ [v] ∧ holeVma lastDl sentinel hint size l = some v) ∧ hint ≤ a ∧
      (a = hint ∨ ∃ u ∈ l, a = vmaEnd u) := by
  induction l with
  | nil => cases h
  | cons vma l induction =>
      simp only [processFindPlaceForElf] at h ⊢
      split
      · rename_i a hfound
        obtain ⟨hwhere, hhint, -, -, -⟩ := findHole_true hfound
        have hvma : holeVma lastDl sentinel hint size (vma :: l) = some vma := by
          rw [holeVma, hfound]
          rfl
        refine ⟨a, [vma], l, rfl, holeAt_of_accepts space hfound, ⟨[], vma, rfl, hvma⟩, hhint, ?_⟩
        rcases hwhere with rfl | rfl
        · exact .inl rfl
        · exact .inr ⟨vma, List.mem_cons_self .., rfl⟩
      · rename_i hskip
        have hrest : 0 ≤ processFindPlaceForElf lastDl sentinel hint size l := by
          split at h
          · rename_i a' hfound
            exact absurd hfound (hskip a')
          · exact h
        obtain ⟨a, front, back, hret, hole, ⟨init, v, hinit, hvma⟩, hhint, hwhere⟩ :=
          induction (space.sublist (List.sublist_cons_self ..)) hrest
        have hvma' : holeVma lastDl sentinel hint size (vma :: l) = some v := by
          rw [holeVma, if_neg, hvma]
          intro hacc
          obtain ⟨a', ha'⟩ := findHole_accepts hacc
          exact hskip a' ha'
        refine ⟨a, vma :: front, back, hret, hole.cons space (by rw [hinit]; simp),
          ⟨vma :: init, v, by rw [hinit]; rfl, hvma'⟩, hhint, ?_⟩
        rcases hwhere with rfl | ⟨u, hu, rfl⟩
        · exact .inl rfl
        · exact .inr ⟨u, List.mem_cons_of_mem _ hu, rfl⟩

/-! ## The image -/

/-- The first address of the pages of a segment. -/
def segStart (p : Phdr) : Nat := (elfPageStart p.pVaddr).toNat

/-- The length of the pages of a segment. -/
def segLength (p : Phdr) : Nat := (createElfVma p).length.toNat

/-- A shared object as linkers make them: the segments have bytes, are in
ascending order, share no page, and the first one starts on page zero. -/
structure PatchFile (ei : ElfInfo) : Prop where
  readable : ∀ o ∈ ei.phdrs, o ≠ none
  bytes : ∀ p ∈ loadsOf ei.phdrs, 0 < p.pFilesz.toNat
  bound : ∀ p ∈ loadsOf ei.phdrs, p.pVaddr.toNat + p.pFilesz.toNat < 2 ^ 46
  ascending : (loadsOf ei.phdrs).Pairwise fun p q => segStart p + segLength p ≤ segStart q
  pageZero : ∀ p ∈ (loadsOf ei.phdrs).head?, segStart p = 0

theorem elfPageAlign_toNat {v : BitVec 64} (h : v.toNat + 0xfff < 2 ^ 64) :
    (elfPageAlign v).toNat = v.toNat + 0xfff - (v.toNat + 0xfff) % 2 ^ 12 := by
  have hsum : (v + 0x1000 - 1).toNat = v.toNat + 0xfff := by bv_omega
  have halign : elfPageAlign v = elfPageStart (v + 0x1000 - 1) := rfl
  rw [halign, elfPageStart_toNat, hsum]

/-- The start of a segment is rounded down to a page, and its length up. -/
theorem segment_toNat {p : Phdr} (h : p.pVaddr.toNat + p.pFilesz.toNat + 0x1000 ≤ 2 ^ 64) :
    segStart p = p.pVaddr.toNat - p.pVaddr.toNat % 2 ^ 12 ∧
      segLength p = p.pFilesz.toNat + p.pVaddr.toNat % 2 ^ 12 + 0xfff -
        (p.pFilesz.toNat + p.pVaddr.toNat % 2 ^ 12 + 0xfff) % 2 ^ 12 := by
  refine ⟨elfPageStart_toNat _, ?_⟩
  have hoff : (elfPageOffset p.pVaddr).toNat = p.pVaddr.toNat % 2 ^ 12 := elfPageOffset_toNat _
  have hsum : (p.pFilesz + elfPageOffset p.pVaddr).toNat =
      p.pFilesz.toNat + p.pVaddr.toNat % 2 ^ 12 := by
    rw [BitVec.toNat_add, hoff, Nat.mod_eq_of_lt (by omega)]
  rw [← hsum]
  exact elfPageAlign_toNat (by omega)

/-- The pages of a segment in numbers. -/
theorem segment_pages {p : Phdr} (hbytes : 0 < p.pFilesz.toNat)
    (hbound : p.pVaddr.toNat + p.pFilesz.toNat < 2 ^ 46) :
    segStart p % 2 ^ 12 = 0 ∧ segLength p % 2 ^ 12 = 0 ∧ segStart p ≤ p.pVaddr.toNat ∧
      p.pVaddr.toNat + p.pFilesz.toNat ≤ segStart p + segLength p ∧
      p.pVaddr.toNat < segStart p + segLength p ∧ segStart p + segLength p < 2 ^ 47 := by
  obtain ⟨hstart, hlen⟩ := segment_toNat (show p.pVaddr.toNat + p.pFilesz.toNat + 0x1000 ≤ 2 ^ 64
    by omega)
  omega

variable {ei : ElfInfo}

theorem PatchFile.pages (h : PatchFile ei) {p : Phdr} (hp : p ∈ loadsOf ei.phdrs) :
    segStart p % 2 ^ 12 = 0 ∧ segLength p % 2 ^ 12 = 0 ∧ segStart p ≤ p.pVaddr.toNat ∧
      p.pVaddr.toNat + p.pFilesz.toNat ≤ segStart p + segLength p ∧
      p.pVaddr.toNat < segStart p + segLength p ∧ segStart p + segLength p < 2 ^ 47 :=
  segment_pages (h.bytes p hp) (h.bound p hp)

theorem PatchFile.strictlySorted (h : PatchFile ei) :
    StrictlySorted ((loadsOf ei.phdrs).map createElfVma) := by
  refine List.pairwise_map.mpr (h.ascending.imp_of_mem ?_)
  intro p q hp hq hle
  obtain ⟨-, -, -, -, hp5, -⟩ := h.pages hp
  obtain ⟨-, -, hq3, -, -, -⟩ := h.pages hq
  show p.pVaddr < q.pVaddr
  rw [BitVec.lt_def]
  omega

/-- The object that `create_elf_mmaps` makes of segments in ascending order. -/
theorem createElfMmaps_created (hread : ∀ o ∈ ei.phdrs, o ≠ none)
    (hsorted : StrictlySorted ((loadsOf ei.phdrs).map createElfVma)) {id : Nat}
    {path : Option String} {dlm : DlMap} (hc : createElfMmaps (allocDlMap id ei path) = (dlm, 0)) :
    DlMapOk dlm ∧ dlm.vmas = (loadsOf ei.phdrs).map createElfVma ∧ dlm.vmas ≠ [] ∧ dlm.ei = ei := by
  obtain ⟨hok, hperm, hne, hei⟩ := createElfMmapsLoop_ok hread (allocDlMap_ok id ei path) hc
  have hperm' : dlm.vmas.Perm ((loadsOf ei.phdrs).map createElfVma) := by
    simpa [allocDlMap] using hperm
  refine ⟨hok, ?_, hne, hei⟩
  refine List.Perm.eq_of_pairwise ?_ hok.sorted
    (hsorted.imp fun hlt => BitVec.le_of_lt hlt) hperm'
  intro u v hu hv huv hvu
  exact hsorted.eq_of_addr (hperm'.mem_iff.mp hu) hv (BitVec.le_antisymm huv hvu)

theorem PatchFile.created (h : PatchFile ei) {id : Nat} {path : Option String} {dlm : DlMap}
    (hc : createElfMmaps (allocDlMap id ei path) = (dlm, 0)) :
    DlMapOk dlm ∧ dlm.vmas = (loadsOf ei.phdrs).map createElfVma ∧ dlm.vmas ≠ [] ∧ dlm.ei = ei :=
  createElfMmaps_created h.readable h.strictlySorted hc

/-- The size that a hole is searched for is that of the image. -/
theorem PatchFile.loadSize_toNat (h : PatchFile ei) {dlm : DlMap}
    (hv : dlm.vmas = (loadsOf ei.phdrs).map createElfVma) (hne : dlm.vmas ≠ []) :
    (loadSize dlm).toNat < 2 ^ 47 ∧
      ∀ p ∈ loadsOf ei.phdrs, segStart p + segLength p ≤ (loadSize dlm).toNat := by
  obtain ⟨init, last, hloads⟩ : ∃ init last, loadsOf ei.phdrs = init ++ [last] := by
    rcases List.eq_nil_or_concat (loadsOf ei.phdrs) with hnil | ⟨init, last, hl⟩
    · rw [hnil] at hv
      exact absurd hv hne
    · exact ⟨init, last, by rw [hl, List.concat_eq_append]⟩
  have hmem : last ∈ loadsOf ei.phdrs := by rw [hloads]; simp
  obtain ⟨hl1, hl2, hl3, hl4, hl5, hl6⟩ := h.pages hmem
  have hlast : dlMapEnd dlm = vmaEnd (createElfVma last) := by
    simp [dlMapEnd, lastDlVma, hv, hloads]
  have hend : (elfPageStart (dlMapEnd dlm)).toNat = segStart last + segLength last := by
    have hlen : (createElfVma last).length.toNat = segLength last := rfl
    have haddr : (createElfVma last).addr.toNat = last.pVaddr.toNat := rfl
    have hstart : segStart last = last.pVaddr.toNat - last.pVaddr.toNat % 2 ^ 12 :=
      elfPageStart_toNat _
    rw [hlast, elfPageStart_toNat, vmaEnd_toNat (by rw [hlen, haddr]; omega), hlen, haddr]
    omega
  have hfirst : (elfPageStart (dlMapStart dlm)).toNat = 0 := by
    cases hl : loadsOf ei.phdrs with
    | nil => rw [hl] at hmem; cases hmem
    | cons p rest =>
        have hp := h.pageZero p (by rw [hl]; rfl)
        rw [dlMapStart, firstDlVma, hv, hl]
        exact hp
  have hsize : (loadSize dlm).toNat = segStart last + segLength last := by
    have hzero : elfPageStart (dlMapStart dlm) = 0 := BitVec.eq_of_toNat_eq hfirst
    rw [loadSize, hzero, sub_zero, hend]
  refine ⟨by omega, fun p hp => ?_⟩
  rw [hsize]
  rw [hloads] at hp
  rcases List.mem_append.mp hp with hinit | hlast'
  · have hasc := h.ascending
    rw [hloads] at hasc
    have hle := (List.pairwise_append.mp hasc).2.2 p hinit last (List.mem_singleton_self _)
    omega
  · rw [List.mem_singleton.mp hlast']

/-! ## The image in the hole -/

theorem elfPageOffset_eq_zero {a : Addr} (h : a.toNat % 2 ^ 12 = 0) : elfPageOffset a = 0 :=
  BitVec.eq_of_toNat_eq (by rw [elfPageOffset_toNat, h]; rfl)

/-- The hint is the start of a page. -/
theorem dlMapJumpHint_aligned {target : DlMap} (space : AddressSpace target.vmas) :
    (dlMapJumpHint target).toNat % 2 ^ 12 = 0 := by
  have hend : (dlMapEnd target).toNat % 2 ^ 12 = 0 := by
    rw [dlMapEnd, lastDlVma]
    cases hl : target.vmas.getLast? with
    | none => rfl
    | some v =>
        have hv := List.mem_of_getLast? hl
        obtain ⟨ha, hn⟩ := space.aligned v hv
        show (vmaEnd v).toNat % 2 ^ 12 = 0
        rw [vmaEnd_toNat (space.top v hv)]
        omega
  rw [dlMapJumpHint, x86JumpMinAddress]
  split
  · exact hend
  · split
    · rename_i hgt
      have hrange : X86_64_JUMP_RANGE.toNat = 2 ^ 31 := rfl
      rw [gt_iff_lt, BitVec.lt_def] at hgt
      rw [BitVec.toNat_sub_of_le (BitVec.le_of_lt hgt)]
      omega
    · rfl

/-- A patch between the mappings of a process: `front` below it, `back` above. -/
structure Placed (vmas : List Vma) (dlm : DlMap) (front back : List Vma) : Prop where
  split : vmas = front ++ back
  space : AddressSpace (front ++ dlm.vmas ++ back)

/-- The patch is also between those mappings of the process that are among
these. -/
theorem Placed.restrict {vmas vmas' front back : List Vma} {dlm : DlMap}
    (h : Placed vmas dlm front back) (hs : (vmas'.map Vma.range).Sublist (vmas.map Vma.range)) :
    ∃ front' back', Placed vmas' dlm front' back' ∧
      (front'.map Vma.range).Sublist (front.map Vma.range) ∧
      (back'.map Vma.range).Sublist (back.map Vma.range) := by
  rw [h.split, List.map_append, List.sublist_append_iff] at hs
  obtain ⟨r₁, r₂, hr, h₁, h₂⟩ := hs
  obtain ⟨front', back', rfl, rfl, rfl⟩ := List.map_eq_append_iff.mp hr
  refine ⟨front', back', ⟨rfl, h.space.mono ?_⟩, h₁, h₂⟩
  simp only [List.map_append]
  exact (h₁.append (.refl _)).append h₂

/-- A patch behind a mapping cuts the process at the start of this mapping. -/
theorem Placed.cut {vmas vmas' init back : List Vma} {v : Vma} {dlm : DlMap}
    (h : Placed vmas dlm (init ++ [v]) back)
    (hs : (vmas'.map Vma.range).Sublist (vmas.map Vma.range)) :
    ∃ front' back', Placed vmas' dlm front' back' ∧ (∀ u ∈ front', u.addr ≤ v.addr) ∧
      (∀ u ∈ back', v.addr < u.addr) := by
  obtain ⟨front', back', hplaced, hfront, hback⟩ := h.restrict hs
  have hsorted : StrictlySorted (init ++ [v] ++ back) := by
    refine (h.space.sublist ?_).strictlySorted
    exact (List.sublist_append_left ..).append (.refl back)
  obtain ⟨hinit, -, hcross⟩ := List.pairwise_append.mp hsorted
  have haddr : ∀ {l l' : List Vma}, (l'.map Vma.range).Sublist (l.map Vma.range) → ∀ u ∈ l',
      ∃ x ∈ l, x.addr = u.addr := by
    intro l l' hsub u hu
    obtain ⟨x, hx, hrange⟩ := List.mem_map.mp (hsub.subset (List.mem_map_of_mem hu))
    exact ⟨x, hx, (Prod.mk.inj hrange).1⟩
  refine ⟨front', back', hplaced, fun u hu => ?_, fun u hu => ?_⟩
  · obtain ⟨x, hx, hxu⟩ := haddr hfront u hu
    rw [← hxu]
    rcases List.mem_append.mp hx with hx | hx
    · exact BitVec.le_of_lt ((List.pairwise_append.mp hinit).2.2 x hx v (List.mem_singleton_self _))
    · rw [List.mem_singleton.mp hx]
      exact BitVec.le_refl _
  · obtain ⟨x, hx, hxu⟩ := haddr hback u hu
    rw [← hxu]
    exact hcross v (by simp) x hx

/-- The object of a file with its segments moved to `a`. -/
structure PinnedAt (ei : ElfInfo) (a : Addr) (dlm : DlMap) : Prop where
  ok : DlMapOk dlm
  ei_eq : dlm.ei = ei
  vmas : dlm.vmas = (loadsOf ei.phdrs).map fun p => pinElfMmap a (createElfVma p)
  addr : ∀ p ∈ loadsOf ei.phdrs, (pinElfMmap a (createElfVma p)).addr.toNat = a.toNat + segStart p
  nonempty : dlm.vmas ≠ []
  low : a.toNat < 2 ^ 63

theorem PinnedAt.mem {a : Addr} {dlm : DlMap} (h : PinnedAt ei a dlm) {v : Vma}
    (hv : v ∈ dlm.vmas) :
    ∃ p ∈ loadsOf ei.phdrs, v.addr.toNat = a.toNat + segStart p ∧ v.length.toNat = segLength p := by
  rw [h.vmas] at hv
  obtain ⟨p, hp, rfl⟩ := List.mem_map.mp hv
  exact ⟨p, hp, h.addr p hp, rfl⟩

theorem PinnedAt.space {a : Addr} {dlm : DlMap} (h : PinnedAt ei a dlm) (file : PatchFile ei)
    (ha : a.toNat % 2 ^ 12 = 0) : AddressSpace dlm.vmas where
  below := by
    rw [h.vmas]
    refine List.pairwise_map.mpr (file.ascending.imp_of_mem ?_)
    intro p q hp hq hle
    show (pinElfMmap a (createElfVma p)).addr.toNat + segLength p ≤
      (pinElfMmap a (createElfVma q)).addr.toNat
    rw [h.addr p hp, h.addr q hq]
    omega
  nonempty := by
    intro v hv
    obtain ⟨p, hp, -, hlen⟩ := h.mem hv
    obtain ⟨-, -, h3, -, h5, -⟩ := file.pages hp
    omega
  aligned := by
    intro v hv
    obtain ⟨p, hp, haddr, hlen⟩ := h.mem hv
    obtain ⟨h1, h2, -, -, -, -⟩ := file.pages hp
    omega
  top := by
    intro v hv
    obtain ⟨p, hp, haddr, hlen⟩ := h.mem hv
    obtain ⟨-, -, -, -, -, h6⟩ := file.pages hp
    have hlow := h.low
    omega

/-- The mapping behind which the patch is put. -/
def placeVma (ctx : Ctx) (dlm : DlMap) : Option Vma :=
  holeVma (lastDlOf ctx) ctx.sentinel (dlMapJumpHint ctx.targetDlm) (loadSize dlm) ctx.vmas

/-- The segments moved to a page below the half of the address space. -/
theorem PatchFile.pinned (file : PatchFile ei) {id : Nat} {path : Option String} {dlm₁ : DlMap}
    (hcreate : createElfMmaps (allocDlMap id ei path) = (dlm₁, 0)) {a : Addr}
    (haligned : a.toNat % 2 ^ 12 = 0) (hlow : a.toNat < 2 ^ 63) :
    PinnedAt ei a (pinAll a dlm₁) := by
  obtain ⟨hok, hvmas, hne, hei⟩ := file.created hcreate
  have hoff := elfPageOffset_eq_zero haligned
  have hfit : ∀ p ∈ loadsOf ei.phdrs, a.toNat + p.pVaddr.toNat < 2 ^ 64 := by
    intro p hp
    have := file.bound p hp
    omega
  refine ⟨?_, hei, ?_, ?_, ?_, hlow⟩
  · refine pinAll_ok hok hoff ?_
    intro v hv
    rw [hvmas] at hv
    obtain ⟨p, hp, rfl⟩ := List.mem_map.mp hv
    exact hfit p hp
  · show dlm₁.vmas.map (pinElfMmap a) = _
    rw [hvmas, List.map_map]
    rfl
  · intro p hp
    exact pageStart_add_toNat hoff (hfit p hp)
  · show dlm₁.vmas.map (pinElfMmap a) ≠ []
    simpa using hne

/-- `pin_elf_mmaps` puts the image into a hole within the range of jumps. -/
theorem pinElfMmaps_placed {ctx : Ctx} {id : Nat} {path : Option String} {dlm₁ dlm : DlMap}
    (space : AddressSpace ctx.vmas) (target : AddressSpace ctx.targetDlm.vmas) (file : PatchFile ei)
    (hcreate : createElfMmaps (allocDlMap id ei path) = (dlm₁, 0))
    (hpin : pinElfMmaps ctx dlm₁ = (dlm, 0)) :
    ∃ a front back, findPlace ctx dlm₁ = a.toInt ∧ PinnedAt ei a dlm ∧
      Placed ctx.vmas dlm front back ∧
      (∃ init v, front = init ++ [v] ∧ placeVma ctx dlm₁ = some v) ∧
      dlMapCheckJumpRange ctx.targetDlm a = 0 ∧
      dlMapCheckJumpRange ctx.targetDlm (a + loadSize dlm₁) = 0 := by
  obtain ⟨-, hvmas, hne, -⟩ := file.created hcreate
  obtain ⟨hsize, hfits⟩ := file.loadSize_toNat hvmas hne
  obtain ⟨hdlm, hpos, hrange⟩ := pinElfMmaps_ok hpin
  obtain ⟨a, front, back, hret, hole, hvma, -, hwhere⟩ := processFindPlaceForElf_hole space hpos
  have hplace : findPlace ctx dlm₁ = a.toInt := hret
  rw [hplace, BitVec.ofInt_toInt] at hdlm hrange
  rw [hplace] at hpos
  have hlow : a.toNat < 2 ^ 63 := by
    have hlt := a.isLt
    have hint := BitVec.toInt_eq_toNat_cond a
    split at hint <;> omega
  have haligned : a.toNat % 2 ^ 12 = 0 := by
    rcases hwhere with rfl | ⟨u, hu, rfl⟩
    · exact dlMapJumpHint_aligned target
    · obtain ⟨h1, h2⟩ := space.aligned u hu
      rw [vmaEnd_toNat (space.top u hu)]
      omega
  have hpinned : PinnedAt ei a dlm := by
    rw [hdlm]
    exact file.pinned hcreate haligned hlow
  have hspace : AddressSpace (front ++ back) := by
    rw [← hole.split]
    exact space
  refine ⟨a, front, back, hplace, hpinned, ⟨hole.split, ?_⟩, hvma, hrange⟩
  refine hspace.insert (hpinned.space file haligned) ?_ ?_
  · intro u hu v hv
    obtain ⟨p, hp, haddr, -⟩ := hpinned.mem hv
    have hfront := hole.front u hu
    rw [Vma.Below]
    omega
  · intro v hv u hu
    obtain ⟨p, hp, haddr, hlen⟩ := hpinned.mem hv
    have hback := hole.back u hu
    have hfits := hfits p hp
    rw [Vma.Below]
    omega

end Nsb
