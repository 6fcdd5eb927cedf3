import Nsb.Patcher.History

/-!
# What a revert leaves behind

`unpatch_process` unmaps one object: the first one with the build ID of the patch.
An object is a run of mappings with one path in the order of the addresses, and a
mapping of another ELF file between two segments of the patch splits it into two
objects.  Then the segments behind that file stay mapped, and `check_process` finds
them.

`revert_removes_patch_iff` says when nothing of the patch is left.
-/

namespace Nsb

/-! ## Checking -/

/-- `check_process`: whether the patch is applied, which is zero or `ENOENT` in the
source, or an error. -/
def checkProcess (ft : Faults) (patchEi : ElfInfo) (w : World) : Except Int Bool :=
  match elfInfoBinpatch patchEi with
  | .error _ => .error 1
  | .ok pi =>
      match processCollectVmas ft w.vmas with
      | .error err => .error err
      | .ok (_, _, applied) => .ok (findPatchByBid applied pi.patchBid).isSome

/-- The mapping is one of the patch. -/
def ofPatch (patchEi : ElfInfo) (v : Vma) : Bool :=
  match v.mapFile with
  | some (.elf ei) => (patchBidOf patchEi).isSome && patchBidOf ei == patchBidOf patchEi
  | _ => false

/-- The group that `find_patch_by_bid` gets to. -/
def patchGroup (patchEi : ElfInfo) (w : World) : Option (List Vma) :=
  (groupsOf w).find? fun g => g.head?.any (ofPatch patchEi)

/-- The mappings outside of a group. -/
def outside (g : List Vma) (l : List Vma) : List Vma :=
  l.filter fun x => g.all fun v => x.addr != v.addr

section

variable {ft : Faults} {w : World} {vmas : List Vma} {dlMaps : List DlMap} {applied : List Patch}

theorem ofPatch_head {patchEi ei : ElfInfo} {bid : String} {g : List Vma}
    (hbid : patchBidOf patchEi = some bid) (hg : groupFile g = some ei) :
    g.head?.any (ofPatch patchEi) = (patchBidOf ei == some bid) := by
  rw [groupFile] at hg
  split at hg
  · rename_i ei' hfile
    cases hg
    obtain ⟨v, hv, hmap⟩ := Option.bind_eq_some_iff.mp hfile
    rw [hv, Option.any_some, ofPatch, hmap, hbid]
    rfl
  · cases hg

theorem isPatchDlm_of_bid {d : DlMap} {bid : String} (h : patchBidOf d.ei = some bid) :
    isPatchDlm d = true := by
  rw [patchBidOf] at h
  split at h
  · rename_i pi hpi
    rw [isPatchDlm, hpi]
  · cases h

/-- `find_patch_by_bid` gets to the first object with the build ID. -/
theorem Found.findPatch_eq (h : Found ft w vmas dlMaps applied) (bid : String) :
    (findPatchByBid applied bid).map Patch.patchDlm =
      dlMaps.find? fun d => patchBidOf d.ei == some bid := by
  obtain ⟨n, hn⟩ := h.patches
  obtain ⟨hdlms, hbids⟩ := @collectPatches_patches ft dlMaps (by rw [hn])
  rw [hn] at hdlms hbids
  have hfind : applied.find? (fun p => p.pi.patchBid == bid) =
      applied.find? ((fun d : DlMap => patchBidOf d.ei == some bid) ∘ Patch.patchDlm) := by
    rw [← List.head?_filter, ← List.head?_filter]
    refine congrArg List.head? (List.filter_congr fun p hp => ?_)
    obtain ⟨pi, hpi, heq⟩ := hbids p hp
    rw [Function.comp_apply, patchBidOf, hpi, heq]
    rfl
  rw [findPatchByBid, hfind, ← List.find?_map, hdlms, List.find?_filter]
  refine congrArg (fun q => dlMaps.find? q) (funext fun d => ?_)
  cases hd : patchBidOf d.ei == some bid with
  | false => simp
  | true => rw [isPatchDlm_of_bid (beq_iff_eq.mp hd)]; rfl

/-- The mappings of the patch that is found are the first group with its build
ID. -/
theorem Found.patchGroup_eq (h : Found ft w vmas dlMaps applied) {patchEi : ElfInfo} {bid : String}
    (hbid : patchBidOf patchEi = some bid) :
    (findPatchByBid applied bid).map (fun p => p.patchDlm.vmas) = patchGroup patchEi w := by
  obtain ⟨maps, hc⟩ := h.collected
  have hgroup : (dlMaps.map DlMap.vmas).find? (fun g => g.head?.any (ofPatch patchEi)) =
      (dlMaps.find? fun d => patchBidOf d.ei == some bid).map DlMap.vmas := by
    rw [List.find?_map, ← List.head?_filter, ← List.head?_filter]
    refine congrArg (fun l => Option.map DlMap.vmas (List.head? l))
      (List.filter_congr fun d hd => ?_)
    exact ofPatch_head hbid (hc.file_eq hd)
  rw [patchGroup, ← h.groups, hgroup, ← h.findPatch_eq bid, Option.map_map]
  rfl

/-- A mapping of the patch heads its group. -/
theorem patchGroup_mem {patchEi : ElfInfo} {g : List Vma} (h : patchGroup patchEi w = some g) :
    g.Sublist w.vmas ∧ ∃ v ∈ g, ofPatch patchEi v = true := by
  rw [patchGroup] at h
  have hmem : g ∈ groupsOf w := List.mem_of_find?_eq_some h
  have hhead : g.head?.any (ofPatch patchEi) = true :=
    List.find?_some (p := fun g : List Vma => g.head?.any (ofPatch patchEi)) h
  constructor
  · have hsub := List.sublist_flatten_of_mem hmem
    rw [groupsOf, List.flatten_splitBy] at hsub
    exact hsub.trans List.filter_sublist
  · cases hv : g.head? with
    | none =>
        rw [hv] at hhead
        cases hhead
    | some v =>
        rw [hv] at hhead
        exact ⟨v, List.mem_of_head? hv, hhead⟩

/-- Without a mapping of the patch there is nothing to find. -/
theorem patchGroup_none {patchEi : ElfInfo} (h : ∀ v ∈ w.vmas, ofPatch patchEi v = false) :
    patchGroup patchEi w = none := by
  cases hg : patchGroup patchEi w with
  | none => rfl
  | some g =>
      obtain ⟨hsub, v, hv, hof⟩ := patchGroup_mem hg
      rw [h v (hsub.subset hv)] at hof
      cases hof

/-- When no mapping of the patch is left, `check_process` says so unless it cannot
collect the mappings. -/
theorem checkProcess_eq_false_iff {ft : Faults} {patchEi : ElfInfo} {pi : PatchInfo}
    (hinfo : elfInfoBinpatch patchEi = .ok pi) (space : AddressSpace w.vmas)
    (hlink : ∀ v ∈ w.vmas, v.dlm = none) (h : ∀ v ∈ w.vmas, ofPatch patchEi v = false) :
    checkProcess ft patchEi w = .ok false ↔ ∃ r, processCollectVmas ft w.vmas = .ok r := by
  rw [checkProcess, hinfo]
  dsimp only
  cases hc : processCollectVmas ft w.vmas with
  | error err => simp
  | ok r =>
      obtain ⟨vmas, dlMaps, applied⟩ := r
      have hfound := processCollectVmas_vmas space hlink hc
      have hnone := hfound.patchGroup_eq (elfInfoBinpatch_ok hinfo).1
      rw [patchGroup_none h, Option.map_eq_none_iff] at hnone
      simp [hnone]

end

/-! ## Reverting -/

section

variable {ft : Faults} {ctx : Ctx} {p : Patch}

theorem funcJumpApplied_vmas (fj : FuncJump) (w : World) :
    (funcJumpApplied ft fj w).1.vmas = w.vmas := by
  rw [funcJumpApplied, processReadData]
  by_cases h0 : fj.funcAddr = 0
  · rw [if_pos h0]
  · rw [if_neg h0]
    by_cases hr : ft.read w.nread = 0
    · rw [if_pos hr]
    · rw [if_neg hr]

/-- Reverting a jump keeps the mappings, whatever fails. -/
theorem revertFuncJump_vmas (fj : FuncJump) (w : World) :
    (revertFuncJump ft ctx p fj w).1.vmas = w.vmas := by
  have hread := @funcJumpApplied_vmas ft fj w
  obtain ⟨⟨w₁, applied⟩, hr⟩ : ∃ r, funcJumpApplied ft fj w = r := ⟨_, rfl⟩
  rw [hr] at hread
  rw [revertFuncJump, hr]
  dsimp only
  split
  · exact hread
  · rw [doRevertFuncJump]
    split
    · exact (processWriteData_frame _ _ _).1.trans hread
    · rw [writeFuncJump]
      split
      · exact hread
      · exact (processWriteData_frame _ _ _).1.trans hread

/-- A revert that returns zero has unmapped the object of the patch, unless it is
a dry run. -/
theorem revertDynBinpatch_vmas {w : World} (hsys : ∀ n, ft.sys n = 0) (space : AddressSpace w.vmas)
    (hsub : p.patchDlm.vmas.Sublist w.vmas) (hret : (revertDynBinpatch ft ctx p w).2 = 0) :
    (revertDynBinpatch ft ctx p w).1.vmas =
      if ctx.dryRun then w.vmas else outside p.patchDlm.vmas w.vmas := by
  obtain ⟨w₁, hvmas, hrun⟩ : ∃ w₁ : World, w₁.vmas = w.vmas ∧
      revertDynBinpatch ft ctx p w = processMunmapDlMap ft ctx p.patchDlm w₁ := by
    rw [revertDynBinpatch]
    split
    · refine ⟨(Loop.each (revertFuncJump ft ctx p) p.pi.funcJumps w).1, ?_, ?_⟩
      · refine Loop.each_inv (I := fun w' : World => w'.vmas = w.vmas) ?_ rfl
        exact fun fj _ w' hw' => (revertFuncJump_vmas fj w').trans hw'
      · exact if_neg (not_not_intro rfl)
    · exact ⟨w, rfl, rfl⟩
  rw [hrun] at hret ⊢
  cases hdry : ctx.dryRun with
  | true =>
      rw [processMunmapDlMap, hdry, if_pos rfl, if_pos rfl]
      exact hvmas
  | false =>
      rw [(processMunmapDlMap_ok hsys hdry hret).2, if_neg Bool.false_ne_true,
        World.unmapAll_filter (by rw [hvmas]; exact space), hvmas, outside]
      · intro v hv
        rw [hvmas]
        exact ⟨v, hsub.subset hv, rfl⟩
      · exact (space.sublist hsub).strictlySorted

end

section

variable {ft : Faults} {inv : Invocation} {w : World}

/-- What a run of `unpatch_process` that returns zero leaves mapped. -/
theorem unpatchProcess_vmas (hsys : ∀ n, ft.sys n = 0) (space : AddressSpace (inv.maps w))
    (hlink : ∀ v ∈ w.vmas, v.dlm = none) (hret : (unpatchProcess ft inv w).2 = 0) :
    (∃ pi, elfInfoBinpatch inv.patchEi = .ok pi) ∧
    ∃ g, patchGroup inv.patchEi w = some g ∧
      (unpatchProcess ft inv w).1.vmas = if inv.dryRun then w.vmas else outside g w.vmas := by
  rw [unpatchProcess] at hret ⊢
  cases hctx : unpatchContext ft inv w with
  | error err =>
      rw [hctx] at hret
      exact absurd hret (unpatchContext_error hctx)
  | ok r =>
      obtain ⟨ctx, p⟩ := r
      rw [hctx] at hret
      have hready := unpatchContext_ok hctx
      have hfound := processCollectVmas_found space hlink hready.found
      obtain ⟨pi, hinfo, hfind⟩ := hready.info
      have hgroup := hfound.patchGroup_eq (elfInfoBinpatch_ok hinfo).1
      rw [hfind, Option.map_some] at hgroup
      refine ⟨⟨pi, hinfo⟩, p.patchDlm.vmas, hgroup.symm, ?_⟩
      rw [← hready.dryRun]
      exact revertDynBinpatch_vmas hsys (space.sublist (maps_sublist inv w))
        (patchGroup_mem hgroup.symm).1 hret

end

/-! ## What is left -/

/-- Nothing of the patch is left: no mapping of it, and `check_process` says that
it is not applied. -/
def Removed (ft : Faults) (patchEi : ElfInfo) (w : World) : Prop :=
  (∀ v ∈ w.vmas, ofPatch patchEi v = false) ∧ checkProcess ft patchEi w = .ok false

/-- All mappings of the patch are in the group that is unmapped, and the others
can be collected. -/
def InOneGroup (ft : Faults) (patchEi : ElfInfo) (w : World) : Prop :=
  ∃ g, patchGroup patchEi w = some g ∧ (∀ v ∈ outside g w.vmas, ofPatch patchEi v = false) ∧
    ∃ r, processCollectVmas ft (outside g w.vmas) = .ok r

/-- A revert that returns zero removes the patch exactly when it is no dry run and
the patch is one object. -/
theorem revert_removes_patch_iff {ft ft' : Faults} {inv : Invocation} {w : World}
    (hsys : ∀ n, ft.sys n = 0) (space : AddressSpace (inv.maps w))
    (hlink : ∀ v ∈ w.vmas, v.dlm = none) (hret : (unpatchProcess ft inv w).2 = 0) :
    Removed ft' inv.patchEi (unpatchProcess ft inv w).1 ↔
      inv.dryRun = false ∧ InOneGroup ft' inv.patchEi w := by
  obtain ⟨⟨pi, hinfo⟩, g, hg, hvmas⟩ := unpatchProcess_vmas hsys space hlink hret
  obtain ⟨hsub, u, hu, hof⟩ := patchGroup_mem hg
  have hspace := space.sublist (maps_sublist inv w)
  cases hdry : inv.dryRun with
  | true =>
      rw [hdry, if_pos rfl] at hvmas
      refine ⟨fun h => ?_, fun h => absurd h.1 (by decide)⟩
      have hno := h.1 u (by rw [hvmas]; exact hsub.subset hu)
      rw [hof] at hno
      cases hno
  | false =>
      rw [hdry, if_neg Bool.false_ne_true] at hvmas
      have hone : InOneGroup ft' inv.patchEi w ↔
          (∀ v ∈ outside g w.vmas, ofPatch inv.patchEi v = false) ∧
            ∃ r, processCollectVmas ft' (outside g w.vmas) = .ok r := by
        refine ⟨fun ⟨g', hg', h⟩ => ?_, fun h => ⟨g, hg, h⟩⟩
        cases hg.symm.trans hg'
        exact h
      rw [hone, Removed, hvmas]
      simp only [true_and]
      refine and_congr_right fun hno => ?_
      rw [← hvmas] at hno ⊢
      refine checkProcess_eq_false_iff hinfo ?_ ?_ hno
      · rw [hvmas]
        exact hspace.sublist List.filter_sublist
      · rw [hvmas]
        exact fun v hv => hlink v (List.mem_of_mem_filter hv)

/-! ## A patch with a gap -/

/-- Between the two segments of the patch is a page that it does not use. -/
def gapElf : ElfInfo :=
  { patchElf "gap" 0 with
    phdrs := [some codeSegment,
      some { pFlags := 6, pOffset := 0x1000, pVaddr := 0x2000, pFilesz := 0x1000 }] }

def gapPatch : Invocation :=
  { patchfile := "gap.so", patchEi := gapElf, remote := 0x700000, needed := [0x400000] }

/-- The target with room behind it. -/
def wideWorld : World :=
  { holeWorld with vmas := targetVmas ++ [{ addr := 0x800000, length := 0x1000, prot := 3 }] }

/-- The patch is applied. -/
def gapWorld : World := (patchProcess {} gapPatch wideWorld).1

/-- The process maps another file into the gap. -/
def otherWorld : World :=
  gapWorld.mmap (some "other.so") { bid := some "other" } { addr := 0x403000, length := 0x1000 }

/-- Without the other file the revert is complete. -/
theorem gapWorld_removed :
    (unpatchProcess {} gapPatch gapWorld).2 = 0 ∧
    Removed {} gapElf (unpatchProcess {} gapPatch gapWorld).1 := by
  have hret : (unpatchProcess {} gapPatch gapWorld).2 = 0 := by decide
  refine ⟨hret, (revert_removes_patch_iff (fun _ => rfl) (by decide) (by decide) hret).mpr ?_⟩
  exact ⟨rfl, _, rfl, by decide, _, rfl⟩

/-- With it the second segment stays, and the patch counts as applied. -/
theorem otherWorld_not_removed :
    (patchProcess {} gapPatch wideWorld).2 = 0 ∧ AddressSpace (gapPatch.maps otherWorld) ∧
    (unpatchProcess {} gapPatch otherWorld).2 = 0 ∧
    checkProcess {} gapElf (unpatchProcess {} gapPatch otherWorld).1 = .ok true ∧
    ¬ Removed {} gapElf (unpatchProcess {} gapPatch otherWorld).1 := by
  have hcheck : checkProcess {} gapElf (unpatchProcess {} gapPatch otherWorld).1 = .ok true := by
    decide
  refine ⟨by decide, by decide, by decide, hcheck, fun h => ?_⟩
  have h' := h.2
  rw [hcheck] at h'
  cases h'

end Nsb
