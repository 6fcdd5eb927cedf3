import Mathlib.Data.List.Find
import Nsb.Patcher.Backtrace
import Nsb.Patcher.Collect
import Nsb.Patcher.Patch

/-!
# The range of the stack check

The stack check and the code that changes the process find their addresses in
two ways.  `process_get_target_info` goes over `/proc/PID/maps` and takes the
first mapping whose file has the Build ID.  The patch command then writes at
`dlm_load_base` of the target, which is the executable mapping of the object
that `collect_dl_maps` makes of the same mappings, and the revert command unmaps
the whole object.

`findDlMapByBid_of_targetInfo` joins the two: the first mapping with the Build ID
is the first mapping of the object with the Build ID.  So the two agree when
that mapping is the executable one, as the linkers did that put the code first.
A linker that puts read-only data first breaks both commands.
-/

namespace Nsb

/-! ## The search of the stack check -/

/-- `compare_target_bid`: the return code, and the two fields of
`struct target_info` when it is one. -/
def compareTargetBid (bid : String) (vma : Vma) : Int × Addr × Addr :=
  if vma.path.isNone then (0, 0, 0)
  else
    match vma.mapFile with
    | none => (0, 0, 0)
    | some file =>
        if !isElfFile file then (0, 0, 0)
        else
          match elfCreateInfo file with
          | .error err => (err, 0, 0)
          | .ok ei =>
              if ei.bid ≠ some bid then (0, 0, 0)
              else if elfTypeDyn ei then (1, vmaStart vma, vmaEnd vma)
              else (1, 0, 0)

/-- The loop of `iter_map_files` with `compare_target_bid`; `ret` is the code of
the mapping before. -/
def iterMapFiles (bid : String) : List Vma → Int → Int × Addr × Addr
  | [], ret => (ret, 0, 0)
  | vma :: l, _ =>
      let (ret, start, end_) := compareTargetBid bid vma
      if ret ≠ 0 then (ret, start, end_) else iterMapFiles bid l ret

/-- `process_get_target_info`. -/
def processGetTargetInfo (maps : List Vma) (bid : String) : Except Int (Addr × Addr) :=
  let (ret, start, end_) := iterMapFiles bid maps (-1)
  if ret < 0 then .error ret
  else if ret = 0 then .error (-ENOENT)
  else .ok (start, end_)

/-- The file of the mapping has the Build ID. -/
def hasBid (bid : String) (vma : Vma) : Bool :=
  match vma.mapFile with
  | some (.elf ei) => vma.path.isSome && ei.bid == some bid
  | _ => false

/-- The file of the mapping is a shared object. -/
def isDynVma (vma : Vma) : Bool :=
  match vma.mapFile with
  | some (.elf ei) => elfTypeDyn ei
  | _ => false

/-- The first mapping whose file has the Build ID. -/
def firstMapping (maps : List Vma) (bid : String) : Option Vma := maps.find? (hasBid bid)

/-- `compare_target_bid` stops at a mapping with the Build ID and goes on at any
other one, unless the file cannot be read. -/
theorem compareTargetBid_cases (bid : String) (vma : Vma) :
    (hasBid bid vma = true ∧ compareTargetBid bid vma =
      (1, if isDynVma vma then (vmaStart vma, vmaEnd vma) else (0, 0))) ∨
    (hasBid bid vma = false ∧ compareTargetBid bid vma = (0, 0, 0)) ∨
    (compareTargetBid bid vma).1 < 0 := by
  rw [compareTargetBid, hasBid, isDynVma]
  cases hp : vma.path with
  | none => cases vma.mapFile with
    | none => exact .inr (.inl ⟨rfl, rfl⟩)
    | some file => cases file <;> exact .inr (.inl ⟨rfl, rfl⟩)
  | some path => cases vma.mapFile with
    | none => exact .inr (.inl ⟨rfl, rfl⟩)
    | some file => cases file with
      | notElf => exact .inr (.inl ⟨rfl, rfl⟩)
      | badElf err neg => exact .inr (.inr neg)
      | elf ei =>
          by_cases hb : ei.bid = some bid
          · left
            cases hd : elfTypeDyn ei <;> simp [isElfFile, elfCreateInfo, hb, hd]
          · right
            left
            simp [isElfFile, elfCreateInfo, hb]

/-- What the search leaves in `struct target_info` when it finds a mapping. -/
theorem iterMapFiles_found {bid : String} :
    ∀ {maps : List Vma} {ret r : Int} {start end_ : Addr}, ret ≤ 0 →
      iterMapFiles bid maps ret = (r, start, end_) → 0 < r →
      ∃ f, firstMapping maps bid = some f ∧
        (start, end_) = if isDynVma f then (vmaStart f, vmaEnd f) else (0, 0)
  | [], ret, r, start, end_, hret, h, hr => by
      cases h
      omega
  | vma :: l, ret, r, start, end_, hret, h, hr => by
      rw [iterMapFiles] at h
      rw [firstMapping]
      obtain ⟨hb, hc⟩ | ⟨hb, hc⟩ | hneg := compareTargetBid_cases bid vma
      · rw [hc] at h
        refine ⟨vma, List.find?_cons_of_pos hb, ?_⟩
        exact (congrArg Prod.snd h).symm
      · rw [hc] at h
        rw [List.find?_cons_of_neg (by simp [hb])]
        exact iterMapFiles_found (le_refl 0) h hr
      · dsimp only at h
        rw [if_pos (by omega)] at h
        have hr' : (compareTargetBid bid vma).1 = r := congrArg Prod.fst h
        omega

/-- The range that the stack check gets. -/
theorem processGetTargetInfo_ok {maps : List Vma} {bid : String} {start end_ : Addr}
    (h : processGetTargetInfo maps bid = .ok (start, end_)) :
    ∃ f, firstMapping maps bid = some f ∧
      (start, end_) = if isDynVma f then (vmaStart f, vmaEnd f) else (0, 0) := by
  rw [processGetTargetInfo] at h
  obtain ⟨⟨r, s, e⟩, hfound⟩ : ∃ t, iterMapFiles bid maps (-1) = t := ⟨_, rfl⟩
  rw [hfound] at h
  dsimp only at h
  by_cases hneg : r < 0
  · rw [if_pos hneg] at h
    cases h
  · rw [if_neg hneg] at h
    by_cases hzero : r = 0
    · rw [if_pos hzero] at h
      cases h
    · rw [if_neg hzero] at h
      cases h
      exact iterMapFiles_found (by decide) hfound (by omega)

/-! ## The mappings of a stopped process -/

/-- The mappings of a stopped process: `maps` as the stack check sees them and
`vmas` as they are collected.  Between the two nsb maps its scratch region, which
has no file.  A path names one file, a Build ID one ELF file, and a patch has the
Build ID that its `vzpatch` section gives. -/
structure Layout (maps vmas : List Vma) : Prop where
  same : vmas.filter isDlVma = maps.filter isDlVma
  disjoint : vmas.Pairwise fun u v => u.addr.toNat + u.length.toNat ≤ v.addr.toNat
  size : ∀ v ∈ vmas, 0x1000 ≤ v.length.toNat ∧ v.addr.toNat + v.length.toNat < 2 ^ 64
  path : ∀ v ∈ vmas, isDlVma v = true → v.path.isSome = true
  file : ∀ u ∈ vmas, ∀ v ∈ vmas, isDlVma u = true → isDlVma v = true → u.path = v.path →
    u.mapFile = v.mapFile
  bid : ∀ u ∈ vmas, ∀ v ∈ vmas, ∀ ei ei' b, u.mapFile = some (.elf ei) →
    v.mapFile = some (.elf ei') → ei.bid = some b → ei'.bid = some b → ei = ei'
  patchBid : ∀ v ∈ vmas, ∀ ei pi, v.mapFile = some (.elf ei) → ei.vzpatch = some (.ok pi) →
    ei.bid = some pi.patchBid

section

variable {maps vmas : List Vma}

theorem Layout.strictlySorted (h : Layout maps vmas) : StrictlySorted vmas := by
  refine h.disjoint.imp_of_mem ?_
  intro u v hu hv huv
  have hsize := (h.size u hu).1
  rw [BitVec.lt_def]
  omega

theorem hasBid_isDlVma {bid : String} {v : Vma} (h : hasBid bid v = true) : isDlVma v = true := by
  rw [hasBid] at h
  rw [isDlVma]
  cases hm : v.mapFile with
  | none => rw [hm] at h; cases h
  | some file => cases file with
    | notElf => rw [hm] at h; cases h
    | badElf err neg => rfl
    | elf ei => rfl

/-- The first mapping with a Build ID among the collected mappings. -/
theorem Layout.firstMapping_eq (h : Layout maps vmas) (bid : String) :
    firstMapping maps bid = (vmas.filter isDlVma).find? (hasBid bid) := by
  have himp : hasBid bid = fun v => decide (isDlVma v = true ∧ hasBid bid v = true) := by
    funext v
    cases hb : hasBid bid v with
    | false => simp
    | true => simp [hasBid_isDlVma hb]
  rw [h.same, List.find?_filter]
  exact congrArg (maps.find? ·) himp

variable {dlMaps : List DlMap}

theorem elfCreateInfo_eq_ok {file : MapFile} {ei : ElfInfo} (h : elfCreateInfo file = .ok ei) :
    file = .elf ei := by
  cases file with
  | notElf => cases h
  | badElf err neg => cases h
  | elf ei' => cases h; rfl

/-- All the mappings of an object are of its ELF file. -/
theorem Layout.mapFile_eq (h : Layout maps vmas) (hc : Collected vmas dlMaps) {d : DlMap}
    (hd : d ∈ dlMaps) {v : Vma} (hv : v ∈ d.vmas) : v.mapFile = some (.elf d.ei) := by
  obtain ⟨u, file, hhead, hfile, hcreate⟩ := hc.file d hd
  have hu : u ∈ d.vmas := List.mem_of_head? hhead
  obtain ⟨hvm, hve⟩ := hc.mem_addr hd hv
  obtain ⟨hum, hue⟩ := hc.mem_addr hd hu
  have hpath : v.path = u.path := (hc.path d hd v hv).trans (hc.path d hd u hu).symm
  rw [h.file v hvm u hum hve hue hpath, hfile, elfCreateInfo_eq_ok hcreate]

theorem Layout.hasBid_eq (h : Layout maps vmas) (hc : Collected vmas dlMaps) (bid : String)
    {d : DlMap} (hd : d ∈ dlMaps) {v : Vma} (hv : v ∈ d.vmas) :
    hasBid bid v = compareBid bid d := by
  obtain ⟨hvm, hve⟩ := hc.mem_addr hd hv
  rw [hasBid, compareBid]
  rw [h.mapFile_eq hc hd hv]
  dsimp only
  rw [h.path v hvm hve, Bool.true_and]

/-- Two objects with the same Build ID have the same ELF file. -/
theorem Layout.ei_eq (h : Layout maps vmas) (hc : Collected vmas dlMaps) {bid : String}
    {d e : DlMap}
    (hd : d ∈ dlMaps) (he : e ∈ dlMaps) (hdb : compareBid bid d = true)
    (heb : compareBid bid e = true) : d.ei = e.ei := by
  obtain ⟨u, hu⟩ := List.exists_mem_of_ne_nil _ (hc.nonempty d hd)
  obtain ⟨v, hv⟩ := List.exists_mem_of_ne_nil _ (hc.nonempty e he)
  exact h.bid u (hc.mem_addr hd hu).1 v (hc.mem_addr he hv).1 d.ei e.ei bid
    (h.mapFile_eq hc hd hu) (h.mapFile_eq hc he hv) (beq_iff_eq.mp hdb) (beq_iff_eq.mp heb)

/-- The first mapping with the Build ID is the first mapping of the first object
with the Build ID. -/
theorem findDlMapByBid_of_firstMapping (h : Layout maps vmas) (hc : Collected vmas dlMaps)
    {bid : String} {f : Vma} (hf : firstMapping maps bid = some f) :
    ∃ d, findDlMapByBid dlMaps bid = some d ∧ d.vmas.head? = some f ∧
      f.mapFile = some (.elf d.ei) := by
  rw [h.firstMapping_eq, ← hc.flat, List.find?_flatMap, List.findSome?_eq_some_iff] at hf
  obtain ⟨front, d, back, rfl, hfind, hnone⟩ := hf
  have hd : d ∈ front ++ d :: back := List.mem_append_right _ (List.mem_cons_self ..)
  have hbid : compareBid bid d = true := by
    rw [← h.hasBid_eq hc bid hd (List.mem_of_find?_eq_some hfind)]
    exact List.find?_some hfind
  have hhead : d.vmas.head? = some f := by
    cases hl : d.vmas with
    | nil => rw [hl] at hfind; cases hfind
    | cons u l =>
        have hu : hasBid bid u = true := by
          rw [h.hasBid_eq hc bid hd (by rw [hl]; exact List.mem_cons_self ..)]
          exact hbid
        rw [hl, List.find?_cons_of_pos hu] at hfind
        exact hfind
  refine ⟨d, ?_, hhead, h.mapFile_eq hc hd (List.mem_of_head? hhead)⟩
  refine List.find?_eq_some_iff_append.mpr ⟨hbid, front, back, rfl, ?_⟩
  intro e he
  have hem : e ∈ front ++ d :: back := List.mem_append_left _ he
  obtain ⟨u, hu⟩ := List.exists_mem_of_ne_nil _ (hc.nonempty e hem)
  rw [← h.hasBid_eq hc bid hem hu]
  simpa using List.find?_eq_none.mp (hnone e he) u hu

/-- The range of the stack check in terms of the object. -/
theorem findDlMapByBid_of_targetInfo (h : Layout maps vmas) (hc : Collected vmas dlMaps)
    {bid : String} {start end_ : Addr}
    (hinfo : processGetTargetInfo maps bid = .ok (start, end_)) :
    ∃ d f, findDlMapByBid dlMaps bid = some d ∧ firstMapping maps bid = some f ∧
      d.vmas.head? = some f ∧ isDynVma f = elfTypeDyn d.ei ∧
      (start, end_) = if elfTypeDyn d.ei then (vmaStart f, vmaEnd f) else (0, 0) := by
  obtain ⟨f, hf, hrange⟩ := processGetTargetInfo_ok hinfo
  obtain ⟨d, hd, hhead, hfile⟩ := findDlMapByBid_of_firstMapping h hc hf
  have hdyn : isDynVma f = elfTypeDyn d.ei := by rw [isDynVma, hfile]
  exact ⟨d, f, hd, hf, hhead, hdyn, hdyn ▸ hrange⟩

/-- The patch that the revert command finds is made of the same object. -/
theorem findPatchByBid_of_dlMap {ft : Faults} (h : Layout maps vmas) (hc : Collected vmas dlMaps)
    {bid : String} {d : DlMap} {p : Patch} (hd : findDlMapByBid dlMaps bid = some d)
    (hpatches : (collectPatches ft dlMaps).2 = 0)
    (hp : findPatchByBid (collectPatches ft dlMaps).1.1 bid = some p) : p.patchDlm = d := by
  obtain ⟨hmap, hpi⟩ := collectPatches_patches hpatches
  generalize (collectPatches ft dlMaps).1.1 = applied at hmap hpi hp
  have hmem : ∀ q ∈ applied, q.patchDlm ∈ dlMaps ∧ isPatchDlm q.patchDlm = true := by
    intro q hq
    rw [← List.mem_filter, ← hmap]
    exact List.mem_map_of_mem hq
  -- a patch is found by the Build ID of its object
  have hbid : ∀ q ∈ applied, (q.pi.patchBid == bid) = compareBid bid q.patchDlm := by
    intro q hq
    obtain ⟨pi, hvz, hpb⟩ := hpi q hq
    obtain ⟨v, hv⟩ := List.exists_mem_of_ne_nil _ (hc.nonempty _ (hmem q hq).1)
    have hei := h.patchBid v (hc.mem_addr (hmem q hq).1 hv).1 _ pi
      (h.mapFile_eq hc (hmem q hq).1 hv) hvz
    rw [compareBid, hei, hpb]
    rfl
  have hfind : (dlMaps.filter isPatchDlm).find? (compareBid bid) = some p.patchDlm := by
    rw [← hmap, List.find?_map]
    have hsame : applied.find? (compareBid bid ∘ Patch.patchDlm) = some p := by
      rw [← hp]
      exact List.find?_congr fun q hq => (hbid q hq).symm
    rw [hsame]
    rfl
  have hpm := List.mem_filter.mp (List.mem_of_find?_eq_some hfind)
  have hei : d.ei = p.patchDlm.ei :=
    h.ei_eq hc (List.mem_of_find?_eq_some hd) hpm.1 (List.find?_some hd) (List.find?_some hfind)
  have hpatch : isPatchDlm d = true := by
    rw [isPatchDlm, hei]
    exact hpm.2
  have hfirst : (dlMaps.filter isPatchDlm).find? (compareBid bid) = some d := by
    obtain ⟨hbd, front, back, hsplit, hnone⟩ := List.find?_eq_some_iff_append.mp hd
    rw [List.find?_filter, List.find?_eq_some_iff_append]
    refine ⟨by simp [hpatch, hbd], front, back, hsplit, ?_⟩
    intro e he
    have hne := hnone e he
    simp only [Bool.not_eq_true', decide_eq_false_iff_not, not_and, Bool.not_eq_true] at hne ⊢
    exact fun _ => hne
  exact Option.some.inj (hfind.symm.trans hfirst)

/-! ## Checked and changed code -/

/-- The range that `backtrace_check_func` tests for a function when the target
starts at `base`. -/
def funcRange (base : Addr) (fj : FuncJump) : Addr × Addr :=
  (base + fj.funcValue, base + fj.funcValue + fj.funcSize.setWidth 64)

/-- The functions are checked where they are overwritten. -/
def PatchChecksTarget (start : Addr) (target : DlMap) (pi : PatchInfo) : Prop :=
  ∀ fj ∈ pi.funcJumps, funcRange start fj = funcRange (dlmLoadBase target) fj

/-- The executable mappings of the patch lie in the checked range. -/
def RevertChecksPatch (start end_ : Addr) (p : Patch) : Prop :=
  ∀ v ∈ p.patchDlm.vmas, isExec v = true → ∀ a, vmaStart v ≤ a → a < vmaEnd v →
    start ≤ a ∧ a ≤ end_

/-- The executable mapping of an object starts where its first mapping does
exactly when it is its first mapping. -/
theorem execVma_start_eq_iff {d : DlMap} (hok : DlMapOk d) (hs : StrictlySorted d.vmas) {f x : Vma}
    (hhead : d.vmas.head? = some f) (hx : d.execVma = some x) :
    vmaStart f = vmaStart x ↔ isExec f = true := by
  obtain ⟨hxm, hxe⟩ := (hok.exec x).mp hx
  constructor
  · intro heq
    have hfx : f = x := by
      cases hl : d.vmas with
      | nil => rw [hl] at hhead; cases hhead
      | cons u l =>
          rw [hl] at hhead hxm hs
          cases hhead
          cases List.mem_cons.mp hxm with
          | inl he => exact he.symm
          | inr hl' =>
              have hlt := List.rel_of_pairwise_cons hs hl'
              rw [vmaStart] at heq
              rw [heq] at hlt
              exact absurd hlt (BitVec.lt_irrefl _)
    rw [hfx]
    exact hxe
  · intro hfe
    have hf := (hok.exec f).mpr ⟨List.mem_of_head? hhead, hfe⟩
    rw [hx] at hf
    cases hf
    rfl

/-- The mappings of an object do not overlap. -/
theorem Layout.dlm_disjoint (h : Layout maps vmas) (hc : Collected vmas dlMaps) {d : DlMap}
    (hd : d ∈ dlMaps) :
    d.vmas.Pairwise fun u v => u.addr.toNat + u.length.toNat ≤ v.addr.toNat := by
  have hflat : (dlMaps.flatMap DlMap.vmas).Pairwise
      fun u v => u.addr.toNat + u.length.toNat ≤ v.addr.toNat := by
    rw [hc.flat]
    exact h.disjoint.filter _
  exact (List.pairwise_flatMap.mp hflat).1 d hd

theorem Layout.dlm_strictlySorted (h : Layout maps vmas) (hc : Collected vmas dlMaps) {d : DlMap}
    (hd : d ∈ dlMaps) : StrictlySorted d.vmas := by
  refine (h.dlm_disjoint hc hd).imp_of_mem ?_
  intro u v hu hv huv
  have hsize := (h.size u (hc.mem_addr hd hu).1).1
  rw [BitVec.lt_def]
  omega

theorem patchChecksTarget_iff (h : Layout maps vmas) (hret : (collectDlMaps vmas).2.2 = 0)
    {pi : PatchInfo} {start end_ : Addr} {target : DlMap}
    (hinfo : processGetTargetInfo maps pi.targetBid = .ok (start, end_))
    (htarget : findDlMapByBid (collectDlMaps vmas).2.1 pi.targetBid = some target)
    (hexec : elfTypeDyn target.ei = true → target.execVma.isSome = true) :
    PatchChecksTarget start target pi ↔
      pi.funcJumps = [] ∨ (firstMapping maps pi.targetBid).any isDynVma = false ∨
        (firstMapping maps pi.targetBid).any isExec = true := by
  have hc := collectDlMaps_collected h.strictlySorted hret
  obtain ⟨d, f, hd, hf, hhead, hdyn, hrange⟩ := findDlMapByBid_of_targetInfo h hc hinfo
  rw [htarget] at hd
  cases hd
  have hmem := List.mem_of_find?_eq_some htarget
  have hok := collectDlMaps_ok vmas target hmem
  have hbase : start = dlmLoadBase target ↔ isDynVma f = false ∨ isExec f = true := by
    rw [dlmLoadBase]
    rw [hdyn]
    cases hty : elfTypeDyn target.ei with
    | false =>
        rw [hty] at hrange
        cases hrange
        simp
    | true =>
        rw [hty] at hrange
        cases hrange
        obtain ⟨x, hx⟩ := Option.isSome_iff_exists.mp (hexec hty)
        rw [hx, ← execVma_start_eq_iff hok (h.dlm_strictlySorted hc hmem) hhead hx]
        simp
  rw [hf, Option.any_some, Option.any_some, ← hbase]
  rw [PatchChecksTarget]
  constructor
  · intro hall
    cases hj : pi.funcJumps with
    | nil => exact .inl rfl
    | cons fj l =>
        have heq := congrArg Prod.fst (hall fj (by rw [hj]; exact List.mem_cons_self ..))
        exact .inr (add_right_cancel heq)
  · rintro (hnil | heq) fj hfj
    · rw [hnil] at hfj
      cases hfj
    · rw [heq]

/-- A mapping that is covered by the range of a mapping is that mapping. -/
theorem covered_eq {f v : Vma} {l : List Vma}
    (hdis : (f :: l).Pairwise fun u v => u.addr.toNat + u.length.toNat ≤ v.addr.toNat)
    (hv : v ∈ f :: l) (hsize : 0x1000 ≤ v.length.toNat)
    (hbound : v.addr.toNat + v.length.toNat < 2 ^ 64)
    (hcov : ∀ a, vmaStart v ≤ a → a < vmaEnd v → vmaStart f ≤ a ∧ a ≤ vmaEnd f) : v = f := by
  cases List.mem_cons.mp hv with
  | inl he => exact he
  | inr hl =>
      have hle := List.rel_of_pairwise_cons hdis hl
      have hnext := (hcov (v.addr + 1) (by unfold vmaStart; bv_omega)
        (by unfold vmaEnd; bv_omega)).2
      rw [vmaEnd] at hnext
      exfalso
      bv_omega

theorem revertChecksPatch_iff {ft : Faults} (h : Layout maps vmas)
    (hret : (collectDlMaps vmas).2.2 = 0) {bid : String} {start end_ : Addr} {p : Patch}
    (hinfo : processGetTargetInfo maps bid = .ok (start, end_))
    (hpatches : (collectPatches ft (collectDlMaps vmas).2.1).2 = 0)
    (hp : findPatchByBid (collectPatches ft (collectDlMaps vmas).2.1).1.1 bid = some p) :
    RevertChecksPatch start end_ p ↔
      p.patchDlm.execVma = none ∨
        (firstMapping maps bid).any (fun f => isDynVma f && isExec f) = true := by
  have hc := collectDlMaps_collected h.strictlySorted hret
  obtain ⟨d, f, hd, hf, hhead, hdyn, hrange⟩ := findDlMapByBid_of_targetInfo h hc hinfo
  have hpd := findPatchByBid_of_dlMap h hc hd hpatches hp
  have hmem := List.mem_of_find?_eq_some hd
  have hok := collectDlMaps_ok vmas d hmem
  obtain ⟨l, hl⟩ : ∃ l, d.vmas = f :: l := List.head?_eq_some_iff.mp hhead
  rw [hf, Option.any_some, hdyn]
  rw [RevertChecksPatch]
  rw [hpd]
  constructor
  · intro hcov
    cases hx : d.execVma with
    | none => exact .inl rfl
    | some x =>
        right
        obtain ⟨hxm, hxe⟩ := (hok.exec x).mp hx
        obtain ⟨hsize, hbound⟩ := h.size x (hc.mem_addr hmem hxm).1
        cases hty : elfTypeDyn d.ei with
        | true =>
            rw [hty] at hrange
            cases hrange
            have hdis := h.dlm_disjoint hc hmem
            rw [hl] at hdis hxm
            rw [← covered_eq hdis hxm hsize hbound (hcov x (by rw [hl]; exact hxm) hxe), hxe]
            rfl
        | false =>
            rw [hty] at hrange
            cases hrange
            have hnext := (hcov x hxm hxe (x.addr + 1) (by unfold vmaStart; bv_omega)
              (by unfold vmaEnd; bv_omega)).2
            exfalso
            bv_omega
  · rintro (hnone | hfx) v hv hve a ha1 ha2
    · rw [(hok.exec v).mpr ⟨hv, hve⟩] at hnone
      cases hnone
    · obtain ⟨hty, hfe⟩ := (Bool.and_eq_true _ _).mp hfx
      have hfm : f ∈ d.vmas := by rw [hl]; exact List.mem_cons_self ..
      have hxf := (hok.exec f).mpr ⟨hfm, hfe⟩
      rw [(hok.exec v).mpr ⟨hv, hve⟩] at hxf
      cases hxf
      rw [hty] at hrange
      cases hrange
      exact ⟨ha1, BitVec.le_of_lt ha2⟩

/-- Both commands: the stack check is about the code that is changed exactly when
the first mapping with the Build ID is the executable one, where this matters.
For an executable at fixed addresses the patch command is right anyway, and the
revert command is not. -/
theorem checkedRange_covers_iff (h : Layout maps vmas) (hret : (collectDlMaps vmas).2.2 = 0) :
    (∀ pi start end_ target,
      processGetTargetInfo maps pi.targetBid = .ok (start, end_) →
      findDlMapByBid (collectDlMaps vmas).2.1 pi.targetBid = some target →
      (elfTypeDyn target.ei = true → target.execVma.isSome = true) →
      (PatchChecksTarget start target pi ↔
        pi.funcJumps = [] ∨ (firstMapping maps pi.targetBid).any isDynVma = false ∨
          (firstMapping maps pi.targetBid).any isExec = true)) ∧
    (∀ ft bid start end_ p,
      processGetTargetInfo maps bid = .ok (start, end_) →
      (collectPatches ft (collectDlMaps vmas).2.1).2 = 0 →
      findPatchByBid (collectPatches ft (collectDlMaps vmas).2.1).1.1 bid = some p →
      (RevertChecksPatch start end_ p ↔
        p.patchDlm.execVma = none ∨
          (firstMapping maps bid).any (fun f => isDynVma f && isExec f) = true)) :=
  ⟨fun _ _ _ _ hinfo htarget hexec => patchChecksTarget_iff h hret hinfo htarget hexec,
    fun _ _ _ _ _ hinfo hpatches hp => revertChecksPatch_iff h hret hinfo hpatches hp⟩

end

/-! ## Two linkers -/

/-- A function of the target at offset `0x10`. -/
def oneJump : PatchInfo :=
  { targetBid := "target", patchBid := "patch"
    funcJumps := [{ funcValue := 0x10, patchValue := 0x20 }] }

def linkedTarget : ElfInfo := { bid := some "target" }

def linkedPatch : ElfInfo := { bid := some "patch", vzpatch := some (.ok oneJump) }

/-- A target and a patch of two pages each, with the protection of the first and
of the second page. -/
def linked (prot₁ prot₂ : BitVec 32) : List Vma :=
  [{ addr := 0x400000, length := 0x1000, prot := prot₁, path := some "target.so",
     mapFile := some (.elf linkedTarget) },
   { addr := 0x401000, length := 0x1000, prot := prot₂, path := some "target.so",
     mapFile := some (.elf linkedTarget) },
   { addr := 0x600000, length := 0x1000, prot := prot₁, path := some "patch.so",
     mapFile := some (.elf linkedPatch) },
   { addr := 0x601000, length := 0x1000, prot := prot₂, path := some "patch.so",
     mapFile := some (.elf linkedPatch) }]

theorem linked_file {prot₁ prot₂ : BitVec 32} {v : Vma} (hv : v ∈ linked prot₁ prot₂) {ei : ElfInfo}
    (he : v.mapFile = some (.elf ei)) : ei = linkedTarget ∨ ei = linkedPatch := by
  revert v
  simp only [linked, List.mem_cons, List.not_mem_nil, or_false, forall_eq_or_imp, forall_eq,
    Option.some.injEq, MapFile.elf.injEq]
  exact ⟨fun h => .inl h.symm, fun h => .inl h.symm, fun h => .inr h.symm, fun h => .inr h.symm⟩

theorem linked_layout (prot₁ prot₂ : BitVec 32) :
    Layout (linked prot₁ prot₂) (linked prot₁ prot₂) where
  same := rfl
  disjoint := by simp [linked]
  size := by simp [linked]
  path := by simp [linked]
  file := by simp [linked]
  bid := by
    intro u hu v hv ei ei' b hue hve hb hb'
    have hbid : ei.bid = ei'.bid := hb.trans hb'.symm
    obtain rfl | rfl := linked_file hu hue <;> obtain rfl | rfl := linked_file hv hve
    · rfl
    · exact absurd hbid (by decide)
    · exact absurd hbid (by decide)
    · rfl
  patchBid := by
    intro v hv ei pi he hvz
    obtain rfl | rfl := linked_file hv he
    · cases hvz
    · cases hvz
      rfl

/-- With the code first both commands check the code they change. -/
theorem codeFirst_covered :
    (∃ start end_ target, processGetTargetInfo (linked 5 3) "target" = .ok (start, end_) ∧
      findDlMapByBid (collectDlMaps (linked 5 3)).2.1 "target" = some target ∧
      PatchChecksTarget start target oneJump) ∧
    (∃ start end_ p, processGetTargetInfo (linked 5 3) "patch" = .ok (start, end_) ∧
      findPatchByBid (collectPatches {} (collectDlMaps (linked 5 3)).2.1).1.1 "patch" = some p ∧
      RevertChecksPatch start end_ p) := by
  obtain ⟨hpatch, hrevert⟩ := checkedRange_covers_iff (linked_layout 5 3) rfl
  refine ⟨⟨_, _, _, rfl, rfl, ?_⟩, ⟨_, _, _, rfl, rfl, ?_⟩⟩
  · exact (hpatch oneJump _ _ _ rfl rfl (fun _ => rfl)).mpr (.inr (.inr rfl))
  · exact (hrevert {} "patch" _ _ _ rfl rfl rfl).mpr (.inr rfl)

/-- With a read-only page first the check of the patch command is off by a page,
and that of the revert command does not look at the code at all. -/
theorem separateCode_unchecked :
    (∃ start end_ target, processGetTargetInfo (linked 1 5) "target" = .ok (start, end_) ∧
      findDlMapByBid (collectDlMaps (linked 1 5)).2.1 "target" = some target ∧
      ¬ PatchChecksTarget start target oneJump) ∧
    (∃ start end_ p, processGetTargetInfo (linked 1 5) "patch" = .ok (start, end_) ∧
      findPatchByBid (collectPatches {} (collectDlMaps (linked 1 5)).2.1).1.1 "patch" = some p ∧
      ¬ RevertChecksPatch start end_ p) := by
  refine ⟨⟨_, _, _, rfl, rfl, ?_⟩, ⟨_, _, _, rfl, rfl, ?_⟩⟩
  · intro hall
    exact absurd (hall _ (List.mem_cons_self ..)) (by decide)
  · intro hcov
    have hx := hcov _ (List.mem_cons_of_mem _ (List.mem_cons_self ..)) rfl 0x601001
      (by decide) (by decide)
    exact absurd hx.2 (by decide)

end Nsb
