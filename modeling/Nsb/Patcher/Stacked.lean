import Nsb.Lib.Layers
import Nsb.Patcher.Recollect
import Nsb.Patcher.Revert

/-!
# Several patches in one process

Patches are layers over the functions of their target: a function leads to its
replacement in the last patch that was applied and has one.  What nsb finds in
the process is a list of patches in the order of their addresses.

`Stacked` is the state of a process with some patches.  `as` are the patches in
the order of their addresses, `ms` the same patches in the order of their
application.  Reverting a patch goes back through `as`, so the two lists have to
agree on every function (`Stacked.order`).

The second half of the module is what a run of nsb finds in such a process: the
target is the one that was there at the start (`Stacked.target_eq`) and the
applied patches are `as`, with their jumps tuned (`Stacked.isPatch`).
-/

namespace Nsb

/-! ## The mappings of a patch -/

/-- The mappings of a patch as they show in the process. -/
def block (m : DlMap) : List Vma := m.vmas.map (fileVma m.path m.ei)

/-- The group is a patch. -/
def isPatchGroup (g : List Vma) : Bool := (groupFile g).any fun ei => (patchBidOf ei).isSome

theorem groupFile_block {m : DlMap} (h : m.vmas ≠ []) : groupFile (block m) = some m.ei := by
  obtain ⟨v, l, hl⟩ := List.exists_cons_of_ne_nil h
  rw [groupFile, block, hl]
  rfl

theorem find_exec_block (m : DlMap) :
    (block m).find? isExec = (m.vmas.find? isExec).map (fileVma m.path m.ei) := by
  rw [block, List.find?_map]
  rfl

theorem groupBase_block {m : DlMap} (hok : DlMapOk m) (h : m.vmas ≠ []) :
    groupBase (block m) = dlmLoadBase m := by
  rw [groupBase, groupFile_block h, find_exec_block, dlmLoadBase, hok.execVma_eq, Option.map_map]
  rfl

theorem block_isDlVma {m : DlMap} {v : Vma} (hv : v ∈ block m) : isDlVma v = true := by
  obtain ⟨u, -, rfl⟩ := List.mem_map.mp hv
  rfl

theorem block_path {m : DlMap} {v : Vma} (hv : v ∈ block m) : v.path = m.path := by
  obtain ⟨u, -, rfl⟩ := List.mem_map.mp hv
  rfl

theorem block_range (m : DlMap) : (block m).map Vma.range = m.vmas.map Vma.range := by
  rw [block, List.map_map]
  rfl

theorem patchBidOf_isSome (d : DlMap) : (patchBidOf d.ei).isSome = isPatchDlm d := by
  rw [patchBidOf, isPatchDlm]
  split <;> simp_all

/-- An object is a patch when its group is. -/
theorem Collected.isPatchGroup_eq {vmas : List Vma} {dlMaps : List DlMap}
    (h : Collected vmas dlMaps) {d : DlMap} (hd : d ∈ dlMaps) :
    isPatchGroup d.vmas = isPatchDlm d := by
  rw [isPatchGroup, h.file_eq hd, ← patchBidOf_isSome]
  rfl

/-- Two objects with the same mappings differ in nothing but their addresses in
nsb. -/
theorem Collected.eq_of_vmas {vmas vmas' : List Vma} {dlMaps dlMaps' : List DlMap} {d d' : DlMap}
    (h : Collected vmas dlMaps) (h' : Collected vmas' dlMaps') (hd : d ∈ dlMaps)
    (hd' : d' ∈ dlMaps') (hok : DlMapOk d) (hok' : DlMapOk d') (heq : d.vmas = d'.vmas) :
    d = { d' with id := d.id } := by
  have hei : d.ei = d'.ei := by
    have hfile := h.file_eq hd
    rw [heq, h'.file_eq hd'] at hfile
    exact (Option.some.inj hfile).symm
  have hexec : d.execVma = d'.execVma := by rw [hok.execVma_eq, hok'.execVma_eq, heq]
  have hpath : d.path = d'.path := by
    obtain ⟨v, hv⟩ := List.exists_mem_of_ne_nil _ (h.nonempty d hd)
    rw [← h.path d hd v hv]
    exact h'.path d' hd' v (heq ▸ hv)
  cases d
  cases d'
  simp_all

/-! ## The target and its patches -/

/-- A process without patches, with a target and its functions.  The functions
are mapped, not on page zero, and do not overlap. -/
structure Unpatched (w₀ : World) (bid : String) (target : DlMap) (F : Set (BitVec 64)) : Prop where
  space : AddressSpace w₀.vmas
  listed : ∀ v ∈ w₀.vmas, v.dlm = none
  collects : (collectDlMaps w₀.vmas).2.2 = 0
  noPatch : ∀ d ∈ (collectDlMaps w₀.vmas).2.1, d.ei.vzpatch = none
  found : findDlMapByBid (collectDlMaps w₀.vmas).2.1 bid = some target
  inside : ∀ f ∈ F, Inside target.vmas (dlmLoadBase target + f)
  pageZero : ∀ f ∈ F, 8 ≤ (dlmLoadBase target + f).toNat
  apart : ∀ f ∈ F, ∀ g ∈ F, f ≠ g →
    Apart (dlmLoadBase target + f) 8 (dlmLoadBase target + g) 8

/-- A patch file for the target.  Its jumps are for different functions of the
target, whose code is what the file of the target says; everything it refers to
in itself is in its image; and it is not mistaken for anything that the process
has mapped. -/
structure PatchOf (w₀ : World) (bid : String) (target : DlMap) (F : Set (BitVec 64))
    (inv : Invocation) : Prop where
  file : PatchFile inv.patchEi
  dyn : elfTypeDyn inv.patchEi = true
  exec : ∃ x ∈ loadsOf inv.patchEi.phdrs, x.exec = true
  info : ∃ pi, inv.patchEi.vzpatch = some (.ok pi) ∧ pi.targetBid = bid ∧
    ∀ ss ∈ pi.staticSyms, InImage inv.patchEi ss.patchAddress 8
  slots : ∀ rela ∈ relaEntries inv.patchEi, InImage inv.patchEi rela.rOffset 8
  funcs : ∀ fj ∈ jumpsOf inv.patchEi, fj.funcValue ∈ F
  distinct : (jumpsOf inv.patchEi).Pairwise fun a b => a.funcValue ≠ b.funcValue
  replacements : ∀ fj ∈ jumpsOf inv.patchEi, InImage inv.patchEi fj.patchValue 1
  code : ∀ fj ∈ jumpsOf inv.patchEi, codeReadable target fj = true ∧
    fileCode target fj = w₀.mem.read (dlmLoadBase target + fj.funcValue) 8
  bid_ne : inv.patchEi.bid ≠ some bid
  path_ne : ∀ v ∈ w₀.vmas, v.path ≠ some inv.patchfile

/-- A process and the patches for it.  A path stands for one patch. -/
structure Setting (w₀ : World) (bid : String) (target : DlMap) (F : Set (BitVec 64))
    (U : Set Invocation) : Prop extends Unpatched w₀ bid target F where
  patches : ∀ inv ∈ U, PatchOf w₀ bid target F inv
  paths : ∀ inv ∈ U, ∀ inv' ∈ U, inv.patchfile = inv'.patchfile →
    patchBidOf inv.patchEi = patchBidOf inv'.patchEi

/-! ## The state -/

/-- The jump of a patch for a function. -/
def jumpFor (ei : ElfInfo) (f : BitVec 64) : Option FuncJump :=
  (jumpsOf ei).find? fun fj => fj.funcValue == f

theorem jumpFor_isSome (ei : ElfInfo) (f : BitVec 64) :
    (jumpFor ei f).isSome = coversFunc ei f := by
  rw [jumpFor, coversFunc, Bool.eq_iff_iff, List.find?_isSome, List.any_eq_true]

theorem jumpFor_spec {ei : ElfInfo} {f : BitVec 64} {fj : FuncJump} (h : jumpFor ei f = some fj) :
    fj ∈ jumpsOf ei ∧ fj.funcValue = f :=
  ⟨List.mem_of_find?_eq_some h, by simpa using List.find?_some h⟩

/-- What a function holds when a patch is the last one that covers it. -/
def entryBytes (w₀ : World) (base : Addr) (f : BitVec 64) : Option DlMap → Word
  | none => w₀.mem.read (base + f) 8
  | some m =>
      match jumpFor m.ei f with
      | none => w₀.mem.read (base + f) 8
      | some fj => jumpBytes (base + f) (destOf m fj)

/-- A patch covers a function. -/
def covers (m : DlMap) (f : BitVec 64) : Bool := coversFunc m.ei f

theorem covers_of_jumpFor {m : DlMap} {f : BitVec 64} {fj : FuncJump}
    (h : jumpFor m.ei f = some fj) : covers m f = true := by
  rw [covers, ← jumpFor_isSome, h]
  rfl

theorem not_covers_of_jumpFor {m : DlMap} {f : BitVec 64} (h : jumpFor m.ei f = none) :
    covers m f = false := by
  rw [covers, ← jumpFor_isSome, h]
  rfl

theorem jumpFor_of_covers {m : DlMap} {f : BitVec 64} (h : covers m f = true) :
    ∃ fj, jumpFor m.ei f = some fj := by
  rw [covers, ← jumpFor_isSome, Option.isSome_iff_exists] at h
  exact h

/-- No jump for a function: all jumps are for other ones. -/
theorem jumpFor_none {ei : ElfInfo} {f : BitVec 64} (h : jumpFor ei f = none) {fj : FuncJump}
    (hfj : fj ∈ jumpsOf ei) : fj.funcValue ≠ f := by
  intro heq
  exact List.find?_eq_none.mp h fj hfj (by simpa using heq)

/-- A patch file that is mapped. -/
structure MappedFrom (U : Set Invocation) (base : Addr) (m : DlMap) : Prop where
  source : ∃ inv ∈ U, m.path = some inv.patchfile ∧ m.ei = inv.patchEi
  pinned : ∃ a, PinnedAt m.ei a m
  encodable : ∀ fj ∈ jumpsOf m.ei, Encodable (base + fj.funcValue) (destOf m fj)

/-- A process with patches: `gs` are its groups, `as` the patches by address and
`ms` the patches by the time of their application. -/
structure Stacked (w₀ : World) (target : DlMap) (F : Set (BitVec 64)) (U : Set Invocation)
    (w : World) (gs : List (List Vma)) (as ms : List DlMap) : Prop where
  space : AddressSpace w.vmas
  listed : ∀ v ∈ w.vmas, v.dlm = none
  flat : gs.flatten = w.vmas.filter isDlVma
  old : gs.filter (fun g => !isPatchGroup g) = groupsOf w₀
  patches : gs.filter isPatchGroup = as.map block
  mapped : ∀ m ∈ as, MappedFrom U (dlmLoadBase target) m
  perm : as.Perm ms
  order : Layers.SameOrder covers as ms
  bids : as.Pairwise fun m m' => patchBidOf m.ei ≠ patchBidOf m'.ei
  bytes : ∀ f ∈ F, w.mem.read (dlmLoadBase target + f) 8 =
    entryBytes w₀ (dlmLoadBase target) f (Layers.top covers f ms)

/-! ## The groups -/

section

variable {w₀ w : World} {bid : String} {target : DlMap} {F : Set (BitVec 64)} {U : Set Invocation}
  {gs : List (List Vma)} {as ms : List DlMap}

theorem MappedFrom.patchOf {base : Addr} {m : DlMap} (h : MappedFrom U base m)
    (hs : Setting w₀ bid target F U) :
    ∃ inv ∈ U, m.path = some inv.patchfile ∧ m.ei = inv.patchEi ∧ PatchOf w₀ bid target F inv := by
  obtain ⟨inv, hinv, hpath, hei⟩ := h.source
  exact ⟨inv, hinv, hpath, hei, hs.patches inv hinv⟩

theorem MappedFrom.nonempty {base : Addr} {m : DlMap} (h : MappedFrom U base m) : m.vmas ≠ [] := by
  obtain ⟨a, ha⟩ := h.pinned
  exact ha.nonempty

variable (h : Stacked w₀ target F U w gs as ms)
include h

/-- A group is a patch or was there at the start. -/
theorem Stacked.group_cases {g : List Vma} (hg : g ∈ gs) :
    (∃ m ∈ as, g = block m) ∨ (isPatchGroup g = false ∧ g ∈ groupsOf w₀) := by
  cases hp : isPatchGroup g with
  | true =>
      have hmem : g ∈ gs.filter isPatchGroup := List.mem_filter.mpr ⟨hg, hp⟩
      rw [h.patches] at hmem
      obtain ⟨m, hm, rfl⟩ := List.mem_map.mp hmem
      exact .inl ⟨m, hm, rfl⟩
  | false =>
      have hmem : g ∈ gs.filter fun g => !isPatchGroup g := List.mem_filter.mpr ⟨hg, by simp [hp]⟩
      rw [h.old] at hmem
      exact .inr ⟨rfl, hmem⟩

theorem Stacked.block_mem {m : DlMap} (hm : m ∈ as) :
    block m ∈ gs ∧ isPatchGroup (block m) = true := by
  have hmem : block m ∈ gs.filter isPatchGroup := by
    rw [h.patches]
    exact List.mem_map_of_mem hm
  exact List.mem_filter.mp hmem

variable (hs : Setting w₀ bid target F U)
include hs

omit h in
theorem old_path_ne {g : List Vma} (hg : g ∈ groupsOf w₀) {v : Vma} (hv : v ∈ g) {base : Addr}
    {m : DlMap} (hm : MappedFrom U base m) : v.path ≠ m.path := by
  obtain ⟨inv, -, hpath, -, hpatch⟩ := hm.patchOf hs
  have hmem : v ∈ (groupsOf w₀).flatten := List.mem_flatten.mpr ⟨g, hg, hv⟩
  rw [groupsOf, List.flatten_splitBy] at hmem
  rw [hpath]
  exact hpatch.path_ne v (List.mem_filter.mp hmem).1

/-- Two patches have different paths. -/
theorem Stacked.paths : as.Pairwise fun m m' => m.path ≠ m'.path := by
  refine h.bids.imp_of_mem fun {m m'} hm hm' hbid hpath => hbid ?_
  obtain ⟨inv, hinv, hp, hei⟩ := (h.mapped m hm).source
  obtain ⟨inv', hinv', hp', hei'⟩ := (h.mapped m' hm').source
  rw [hp, hp', Option.some.injEq] at hpath
  rw [hei, hei']
  exact hs.paths inv hinv inv' hinv' hpath

/-- No two groups of which one is a patch have a path in common. -/
theorem Stacked.paths_ne : gs.Pairwise fun x y =>
    isPatchGroup x = true ∨ isPatchGroup y = true → ∀ u ∈ x, ∀ v ∈ y, u.path ≠ v.path := by
  have hboth : gs.Pairwise fun x y => isPatchGroup x = true → isPatchGroup y = true →
      ∀ u ∈ x, ∀ v ∈ y, u.path ≠ v.path := by
    rw [← List.pairwise_filter, h.patches, List.pairwise_map]
    refine (h.paths hs).imp fun hne u hu v hv => ?_
    rw [block_path hu, block_path hv]
    exact hne
  refine hboth.imp_of_mem fun {x y} hx hy hxy hor u hu v hv => ?_
  rcases h.group_cases hx with ⟨m, hm, rfl⟩ | ⟨hx', hold⟩
  · rcases h.group_cases hy with ⟨m', hm', rfl⟩ | ⟨-, hold'⟩
    · exact hxy (h.block_mem hm).2 (h.block_mem hm').2 u hu v hv
    · rw [block_path hu]
      exact (old_path_ne hs hold' hv (h.mapped m hm)).symm
  · rcases h.group_cases hy with ⟨m', hm', rfl⟩ | ⟨hy', -⟩
    · rw [block_path hv]
      exact old_path_ne hs hold hu (h.mapped m' hm')
    · rw [hx', hy'] at hor
      simp at hor

/-- The groups of the process are those that nsb finds. -/
theorem Stacked.groups_eq : groupsOf w = gs := by
  have hnil : [] ∉ gs := by
    intro hmem
    rcases h.group_cases hmem with ⟨m, hm, hnil⟩ | ⟨-, hold⟩
    · exact (h.mapped m hm).nonempty (List.map_eq_nil_iff.mp hnil.symm)
    · exact List.nil_notMem_splitBy _ _ hold
  have hin : ∀ g ∈ gs, g.IsChain fun u v => samePath u v = true := by
    intro g hg
    rcases h.group_cases hg with ⟨m, -, rfl⟩ | ⟨-, hold⟩
    · refine List.Pairwise.isChain (List.pairwise_of_forall_mem_list ?_)
      intro u hu v hv
      simp [samePath, block_path hu, block_path hv]
    · exact List.isChain_of_mem_splitBy hold
  have hbetween : gs.IsChain fun x y =>
      ∃ hx hy, samePath (x.getLast hx) (y.head hy) = false := by
    refine Groups.isChain_of_filter (p := fun g => !isPatchGroup g) ?_ ?_
    · rw [h.old]
      exact List.isChain_getLast_head_splitBy ..
    · refine (h.paths_ne hs).imp_of_mem fun {x y} hx hy hne hor => ?_
      have hx0 : x ≠ [] := fun hx' => hnil (hx' ▸ hx)
      have hy0 : y ≠ [] := fun hy' => hnil (hy' ▸ hy)
      refine ⟨hx0, hy0, ?_⟩
      have hpath := hne (by simpa using hor) _ (List.getLast_mem hx0) _ (List.head_mem hy0)
      simpa [samePath] using hpath
  rw [groupsOf, ← h.flat, List.splitBy_flatten hnil hin hbetween]

/-! ## What a run finds -/

variable {vmas : List Vma} {dlMaps : List DlMap} {applied : List Patch}
  (hf : Found {} w vmas dlMaps applied)
include hf

/-- The target is found as it was at the start. -/
theorem Stacked.target_eq :
    ∃ t, findDlMapByBid dlMaps bid = some t ∧ t = { target with id := t.id } := by
  obtain ⟨maps, hc⟩ := hf.collected
  have hc₀ := collectDlMaps_collected hs.space.strictlySorted hs.collects
  have hnew := hc.findByBid bid
  have hold := hc₀.findByBid bid
  rw [hf.groups, h.groups_eq hs] at hnew
  have hgroups : (collectDlMaps w₀.vmas).2.1.map DlMap.vmas = groupsOf w₀ := hc₀.groups_eq
  rw [hgroups, hs.found, ← h.old, List.find?_filter] at hold
  -- no patch has the build ID of the target
  have hsame : (gs.find? fun g => (!isPatchGroup g) = true ∧
      ((groupFile g).any fun ei => ei.bid == some bid) = true) =
      gs.find? fun g => (groupFile g).any fun ei => ei.bid == some bid := by
    rw [← List.head?_filter, ← List.head?_filter]
    refine congrArg List.head? (List.filter_congr fun g hg => ?_)
    rcases h.group_cases hg with ⟨m, hm, rfl⟩ | ⟨hno, -⟩
    · obtain ⟨inv, -, -, hei, hpatch⟩ := (h.mapped m hm).patchOf hs
      have hne := hpatch.bid_ne
      rw [← hei] at hne
      rw [groupFile_block (h.mapped m hm).nonempty]
      simp [hne]
    · simp [hno]
  rw [hsame, ← hnew] at hold
  cases hfind : findDlMapByBid dlMaps bid with
  | none => rw [hfind] at hold; cases hold
  | some t =>
      rw [hfind] at hold
      have ht : t ∈ dlMaps := List.mem_of_find?_eq_some hfind
      have htarget : target ∈ (collectDlMaps w₀.vmas).2.1 := List.mem_of_find?_eq_some hs.found
      refine ⟨t, rfl, hc.eq_of_vmas hc₀ ht htarget (hf.ok t ht) (collectDlMaps_ok _ _ htarget) ?_⟩
      exact (Option.some.inj hold).symm

/-- An applied patch and the patch that it is. -/
structure IsPatch (target t : DlMap) (p : Patch) (m : DlMap) : Prop where
  found : p.targetDlm = some t
  vmas : p.patchDlm.vmas = block m
  ei : p.patchDlm.ei = m.ei
  bid : some p.pi.patchBid = patchBidOf m.ei
  jumps : p.pi.funcJumps = (jumpsOf m.ei).map (tunedJump target m)

omit h hs hf in
/-- The object of a mapped patch, as it is found. -/
theorem Collected.block_eq {maps : List Vma} (hc : Collected maps dlMaps) {d m : DlMap}
    (hd : d ∈ dlMaps) (hok : DlMapOk d) (hm : DlMapOk m) (hne : m.vmas ≠ [])
    (heq : d.vmas = block m) : d.ei = m.ei ∧ dlmLoadBase d = dlmLoadBase m := by
  constructor
  · have hfile := hc.file_eq hd
    rw [heq, groupFile_block hne] at hfile
    exact (Option.some.inj hfile).symm
  · rw [hc.base_eq hd hok, heq, groupBase_block hm hne]

/-- The applied patches are those in the process, in the order of their addresses,
with their jumps tuned. -/
theorem Stacked.isPatch {t : DlMap} (ht : findDlMapByBid dlMaps bid = some t)
    (heq : t = { target with id := t.id }) : List.Forall₂ (IsPatch target t) applied as := by
  obtain ⟨maps, hc⟩ := hf.collected
  obtain ⟨n, hn⟩ := hf.patches
  obtain ⟨hdlms, hcreated⟩ := @collectPatches_created {} dlMaps (by rw [hn])
  rw [hn] at hdlms hcreated
  have hvmas : applied.map (fun p => p.patchDlm.vmas) = as.map block := by
    have hmap := congrArg (List.map DlMap.vmas) hdlms
    rw [List.map_map] at hmap
    rw [← h.patches, ← h.groups_eq hs, ← hf.groups, List.filter_map]
    refine hmap.trans (congrArg (List.map DlMap.vmas) (List.filter_congr fun d hd => ?_))
    exact (hc.isPatchGroup_eq hd).symm
  refine Groups.forall₂_of_map_eq hvmas fun p hp m hm hpm => ?_
  obtain ⟨k, k', hk⟩ := hcreated p hp
  have hd : p.patchDlm ∈ dlMaps := by
    have hmem : p.patchDlm ∈ dlMaps.filter isPatchDlm := hdlms ▸ List.mem_map_of_mem hp
    exact (List.mem_filter.mp hmem).1
  have hmapped := h.mapped m hm
  obtain ⟨inv, -, -, hei, hpatch⟩ := hmapped.patchOf hs
  obtain ⟨a, hpin⟩ := hmapped.pinned
  obtain ⟨hdei, hbase⟩ := hc.block_eq hd (hf.ok _ hd) hpin.ok hpin.nonempty hpm
  obtain ⟨pi, hinfo, hbid, -⟩ := hpatch.info
  rw [← hei] at hinfo
  have hexec : p.patchDlm.execVma.isSome = true := by
    obtain ⟨x, hx, hxe⟩ := hpatch.exec
    rw [← hei] at hx
    have hv : pinElfMmap a (createElfVma x) ∈ m.vmas := by
      rw [hpin.vmas]
      exact List.mem_map_of_mem hx
    rw [(hf.ok _ hd).execVma_eq, hpm, find_exec_block, Option.isSome_map, List.find?_isSome]
    exact ⟨_, hv, (isExec_createElfVma x).trans hxe⟩
  have hjumps : jumpsOf m.ei = pi.funcJumps := by rw [jumpsOf, hinfo]
  have htune : ∀ fj ∈ pi.funcJumps,
      Encodable (dlmLoadBase t + fj.funcValue) (destOf p.patchDlm fj) ∧
        codeReadable t fj = true := by
    intro fj hfj
    rw [heq, destOf, hbase]
    exact ⟨hmapped.encodable fj (hjumps ▸ hfj), (hpatch.code fj (hei ▸ hjumps ▸ hfj)).1⟩
  obtain ⟨h1, -, h3, h4⟩ :=
    createPatchByDlm_tuned (hdei ▸ hinfo) (by rw [hbid]; exact ht) hexec htune hk
  refine ⟨h1, hpm, hdei, ?_, ?_⟩
  · rw [h3, patchBidOf, hinfo]
  · rw [h4, hjumps]
    refine List.map_congr_left fun fj _ => ?_
    rw [heq]
    simp only [tunedJump, destOf, hbase]
    rfl

end

end Nsb
