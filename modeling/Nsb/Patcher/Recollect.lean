import Nsb.Lib.Groups
import Nsb.Patcher.Image
import Nsb.Patcher.Session

/-!
# What a run finds in the process

Every run of nsb puts the mappings together to objects from scratch.  The objects
depend on the mappings with an ELF file only, so nsb's own scratch region does not
show (`collected_groups`).  An object is given by its group of mappings: the file
is that of the first one, and the base is the start of the executable one
(`Collected.file_eq`, `DlMapOk.execVma_eq`).

`patchContext_ok` and `unpatchContext_ok` say what a run knows once it gets to
`apply_dyn_binpatch` or `revert_dyn_binpatch`.
-/

namespace Nsb

/-! ## The lists of mappings -/

theorem addVma_sublist {new : Vma} :
    ∀ {l l' : List Vma}, addVma new l = some l' → l.Sublist l'
  | [], l', h => by cases h
  | vma :: l, l', h => by
      rw [addVma] at h
      split at h
      · obtain ⟨l'', hl, rfl⟩ := Option.map_eq_some_iff.mp h
        exact (addVma_sublist hl).cons_cons vma
      · cases h
        exact List.sublist_cons_self ..

theorem addVmaSorted_sublist {l l' : List Vma} {vma : Vma} (h : addVmaSorted l vma = .ok l') :
    l.Sublist l' := by
  rw [addVmaSorted] at h
  split at h
  · cases h
    exact List.sublist_append_left ..
  · split at h
    · cases h
      exact List.sublist_append_left ..
    · split at h
      · rename_i hadd
        cases h
        exact addVma_sublist hadd
      · cases h

/-- The list that is spliced into stays part of the result. -/
theorem spliceVmaListsSorted_sublist :
    ∀ {l to_ l' : List Vma}, spliceVmaListsSorted l to_ = .ok l' → to_.Sublist l'
  | [], to_, l', h => by cases h; exact .refl _
  | vma :: l, to_, l', h => by
      rw [spliceVmaListsSorted_cons] at h
      cases ha : addVmaSorted to_ vma with
      | error err => rw [ha] at h; cases h
      | ok l'' =>
          rw [ha] at h
          exact (addVmaSorted_sublist ha).trans (spliceVmaListsSorted_sublist h)

/-- Mappings that come in order are appended. -/
theorem spliceVmaListsSorted_append :
    ∀ {l to_ : List Vma}, StrictlySorted (to_ ++ l) → spliceVmaListsSorted l to_ = .ok (to_ ++ l)
  | [], to_, _ => by rw [List.append_nil]; rfl
  | vma :: l, to_, h => by
      have hbelow : ∀ u ∈ to_, u.addr < vma.addr := fun u hu =>
        (List.pairwise_append.mp h).2.2 u hu vma (List.mem_cons_self ..)
      have h' : StrictlySorted ((to_ ++ [vma]) ++ l) := by rwa [List.append_assoc]
      rw [spliceVmaListsSorted_cons, addVmaSorted_append hbelow]
      show spliceVmaListsSorted l (to_ ++ [vma]) = _
      rw [spliceVmaListsSorted_append h', List.append_assoc]
      rfl

/-- `collect_vmas` reads the mappings as the kernel lists them. -/
theorem collectVmas_eq {maps vmas : List Vma} (space : AddressSpace maps)
    (hlink : ∀ v ∈ maps, v.dlm = none) (h : collectVmas maps = .ok vmas) : vmas = maps := by
  have hmap : maps.map createVma = maps := by
    refine (List.map_congr_left fun v hv => ?_).trans (List.map_id _)
    rw [createVma, ← hlink v hv]
    rfl
  rw [collectVmas] at h
  split at h
  · cases h
  · have happ : spliceVmaListsSorted maps [] = .ok ([] ++ maps) :=
      spliceVmaListsSorted_append space.strictlySorted
    rw [collectVmaLines, hmap, happ] at h
    cases h
    rfl

/-- `collect_dl_maps` sets the link to the object and nothing else. -/
theorem collectDlMaps_range (vmas : List Vma) :
    (collectDlMaps vmas).1.map Vma.range = vmas.map Vma.range := by
  refine Loop.eachSafe_map fun v head => ?_
  rw [collectDlMapVma]
  split
  · exact ⟨v, rfl, rfl⟩
  · split
    · exact ⟨v, rfl, rfl⟩
    · split
      · exact ⟨v, rfl, rfl⟩
      · split
        · exact ⟨_, rfl, rfl⟩
        · exact ⟨_, rfl, rfl⟩

/-! ## Objects by their mappings -/

/-- The ELF file of a group of mappings. -/
def groupFile (g : List Vma) : Option ElfInfo :=
  match g.head?.bind Vma.mapFile with
  | some (.elf ei) => some ei
  | _ => none

theorem Collected.file_eq {vmas : List Vma} {dlMaps : List DlMap} (h : Collected vmas dlMaps)
    {d : DlMap} (hd : d ∈ dlMaps) : groupFile d.vmas = some d.ei := by
  obtain ⟨v, file, hhead, hfile, hcreate⟩ := h.file d hd
  rw [groupFile, hhead, Option.bind_some, hfile]
  cases file with
  | notElf => cases hcreate
  | badElf err neg => cases hcreate
  | elf ei => cases hcreate; rfl

theorem DlMapOk.execVma_eq {d : DlMap} (h : DlMapOk d) : d.execVma = d.vmas.find? isExec := by
  cases hf : d.vmas.find? isExec with
  | none =>
      rw [Option.eq_none_iff_forall_not_mem]
      intro v hv
      obtain ⟨hmem, hexec⟩ := (h.exec v).mp hv
      exact List.find?_eq_none.mp hf v hmem hexec
  | some v => exact (h.exec v).mpr ⟨List.mem_of_find?_eq_some hf, List.find?_some hf⟩

/-- The base of the object with these mappings. -/
def groupBase (g : List Vma) : Addr :=
  match groupFile g with
  | some ei => if elfTypeDyn ei then ((g.find? isExec).map vmaStart).getD 0 else 0
  | none => 0

theorem Collected.base_eq {vmas : List Vma} {dlMaps : List DlMap} (h : Collected vmas dlMaps)
    {d : DlMap} (hd : d ∈ dlMaps) (hok : DlMapOk d) : dlmLoadBase d = groupBase d.vmas := by
  rw [groupBase, h.file_eq hd, dlmLoadBase, hok.execVma_eq]

/-- The object of a group is the first with the build ID when the group is. -/
theorem Collected.findByBid {vmas : List Vma} {dlMaps : List DlMap} (h : Collected vmas dlMaps)
    (bid : String) :
    (findDlMapByBid dlMaps bid).map DlMap.vmas = (dlMaps.map DlMap.vmas).find? fun g =>
      (groupFile g).any fun ei => ei.bid == some bid := by
  rw [List.find?_map, findDlMapByBid, ← List.head?_filter, ← List.head?_filter]
  refine congrArg (fun l => Option.map DlMap.vmas (List.head? l)) (List.filter_congr fun d hd => ?_)
  rw [Function.comp_apply, h.file_eq hd]
  rfl

/-! ## Collecting -/

/-- The groups of the process: runs of equal paths among the mappings of ELF
files. -/
def groupsOf (w : World) : List (List Vma) := (w.vmas.filter isDlVma).splitBy samePath

theorem maps_filter (inv : Invocation) (w : World) :
    (inv.maps w).filter isDlVma = w.vmas.filter isDlVma := by
  rw [Invocation.maps, insertMapping, List.filter_append,
    List.filter_cons_of_neg (by exact Bool.false_ne_true), ← List.filter_append,
    List.takeWhile_append_dropWhile]

theorem maps_sublist (inv : Invocation) (w : World) : w.vmas.Sublist (inv.maps w) := by
  rw [Invocation.maps, insertMapping]
  have hsplit := @List.takeWhile_append_dropWhile _
    (fun u : Vma => decide (u.addr < (remoteVma inv.remote).addr)) w.vmas
  nth_rewrite 1 [← hsplit]
  exact (List.Sublist.refl _).append (List.sublist_cons_self ..)

theorem mem_maps {inv : Invocation} {w : World} {v : Vma} (h : v ∈ inv.maps w) :
    v = remoteVma inv.remote ∨ v ∈ w.vmas := by
  rw [Invocation.maps, insertMapping] at h
  rcases List.mem_append.mp h with h | h
  · exact .inr ((List.takeWhile_sublist _).subset h)
  · rcases List.mem_cons.mp h with h | h
    · exact .inl h
    · exact .inr ((List.dropWhile_sublist _).subset h)

/-- What `process_collect_vmas` knows: the objects are the groups of the process,
and the patches are those among them. -/
structure Found (ft : Faults) (w : World) (vmas : List Vma) (dlMaps : List DlMap)
    (applied : List Patch) : Prop where
  known : (w.vmas.map Vma.range).Sublist (vmas.map Vma.range)
  ok : ∀ d ∈ dlMaps, DlMapOk d
  collected : ∃ maps, Collected maps dlMaps
  groups : dlMaps.map DlMap.vmas = groupsOf w
  patches : ∃ n, collectPatches ft dlMaps = ((applied, n), 0)

/-- Collecting the mappings of a process as they are. -/
theorem processCollectVmas_vmas {ft : Faults} {w : World} {vmas : List Vma} {dlMaps : List DlMap}
    {applied : List Patch} (space : AddressSpace w.vmas) (hlink : ∀ v ∈ w.vmas, v.dlm = none)
    (h : processCollectVmas ft w.vmas = .ok (vmas, dlMaps, applied)) :
    Found ft w vmas dlMaps applied := by
  rw [processCollectVmas] at h
  split at h
  · cases h
  · rename_i maps hcollect
    obtain rfl := collectVmas_eq space hlink hcollect
    dsimp only at h
    split at h
    · cases h
    · rename_i hret
      split at h
      · cases h
      · rename_i hpatches
        rw [not_not] at hret hpatches
        cases h
        have hcollected := collectDlMaps_collected space.strictlySorted hret
        refine ⟨?_, collectDlMaps_ok _, ⟨_, hcollected⟩, ?_, ⟨_, Prod.ext rfl hpatches⟩⟩
        · rw [collectDlMaps_range]
        · rw [hcollected.groups_eq]
          rfl

theorem processCollectVmas_found {ft : Faults} {inv : Invocation} {w : World} {vmas : List Vma}
    {dlMaps : List DlMap} {applied : List Patch} (space : AddressSpace (inv.maps w))
    (hlink : ∀ v ∈ w.vmas, v.dlm = none)
    (h : processCollectVmas ft (inv.maps w) = .ok (vmas, dlMaps, applied)) :
    Found ft w vmas dlMaps applied := by
  have hlink' : ∀ v ∈ inv.maps w, v.dlm = none := by
    intro v hv
    rcases mem_maps hv with rfl | hmem
    · rfl
    · exact hlink v hmem
  have hall := @processCollectVmas_vmas ft { w with vmas := inv.maps w } vmas dlMaps applied space
    hlink' h
  refine ⟨((maps_sublist inv w).map _).trans hall.known, hall.ok, hall.collected, ?_, hall.patches⟩
  rw [hall.groups, groupsOf, groupsOf, maps_filter]

/-- The objects have different addresses in nsb, and so have the patches. -/
theorem Found.ids {ft : Faults} {w : World} {vmas : List Vma} {dlMaps : List DlMap}
    {applied : List Patch} (h : Found ft w vmas dlMaps applied) :
    applied.Pairwise fun p q => p.patchDlm.id ≠ q.patchDlm.id := by
  obtain ⟨maps, hc⟩ := h.collected
  obtain ⟨n, hn⟩ := h.patches
  obtain ⟨hdlms, -⟩ := @collectPatches_created ft dlMaps (by rw [hn])
  rw [hn] at hdlms
  have hnodup : dlMaps.Pairwise fun d e => d.id ≠ e.id := by
    rw [← List.pairwise_map, hc.ids]
    exact List.nodup_range
  have hfilter := hnodup.sublist (List.filter_sublist (p := isPatchDlm))
  rw [← hdlms, List.pairwise_map] at hfilter
  exact hfilter

/-! ## The contexts -/

/-- A jump as `elf_info_binpatch` leaves it. -/
def zeroedJump (fj : FuncJump) : FuncJump :=
  { fj with funcAddr := 0, code := Vector.replicate 8 0, funcJump := Vector.replicate 8 0 }

/-- What `elf_info_binpatch` reads. -/
theorem elfInfoBinpatch_ok {ei : ElfInfo} {pi : PatchInfo} (h : elfInfoBinpatch ei = .ok pi) :
    patchBidOf ei = some pi.patchBid ∧ pi.funcJumps = (jumpsOf ei).map zeroedJump ∧
      ∃ pi₀, ei.vzpatch = some (.ok pi₀) ∧ pi.targetBid = pi₀.targetBid ∧
        pi.staticSyms = pi₀.staticSyms := by
  rw [elfInfoBinpatch] at h
  split at h
  · cases h
  · cases h
  · rename_i pi₀ hinfo
    cases h
    rw [patchBidOf, jumpsOf, hinfo]
    exact ⟨rfl, rfl, pi₀, rfl, rfl, rfl⟩

section

variable {ft : Faults} {inv : Invocation} {w : World} {ctx : Ctx}

/-- What `patch_process` knows when it gets to `apply_dyn_binpatch`. -/
structure PatchReady (ft : Faults) (inv : Invocation) (w : World) (ctx : Ctx)
    (relas : List ExternSymbol × List ExternSymbol) : Prop where
  info : elfInfoBinpatch inv.patchEi = .ok ctx.pi
  found : ∃ vmas, processCollectVmas ft (inv.maps w) = .ok (vmas, ctx.dlMaps, ctx.appliedPatches) ∧
    vmas.Sublist ctx.vmas
  fresh : findPatchByBid ctx.appliedPatches ctx.pi.patchBid = none
  target : findDlMapByBid ctx.dlMaps ctx.pi.targetBid = some ctx.targetDlm
  dryRun : ctx.dryRun = inv.dryRun
  patchfile : ctx.patchfile = inv.patchfile
  patchEi : ctx.patchEi = inv.patchEi
  relas : resolveRelocations ctx (collectRelocations ctx.patchEi).1 = (relas, 0)

/-- The mappings of the service go between those that are known. -/
theorem serviceCollectVmas_sublist {id : Nat} {serviceMaps vmas vmas' : List Vma}
    {dlm : Option DlMap} (h : serviceCollectVmas id serviceMaps vmas = .ok (vmas', dlm)) :
    vmas.Sublist vmas' := by
  rw [serviceCollectVmas] at h
  split at h
  · cases h
  split at h
  · cases h
  split at h
  · cases h
  rename_i serviceVmas dlm _
  cases hsplice : spliceVmaListsSorted serviceVmas vmas with
  | error err => rw [hsplice] at h; cases h
  | ok l =>
      rw [hsplice] at h
      cases h
      exact spliceVmaListsSorted_sublist hsplice

theorem patchContext_ok {relas : List ExternSymbol × List ExternSymbol}
    (h : patchContext ft inv w = .ok (ctx, relas)) : PatchReady ft inv w ctx relas := by
  rw [patchContext] at h
  split at h
  · cases h
  rename_i pi hinfo
  split at h
  · cases h
  rename_i vmas dlMaps applied hcollect
  split at h
  · cases h
  rename_i hfresh
  split at h
  · cases h
  rename_i target htarget
  split at h
  · cases h
  rename_i vmas' serviceDlm hservice
  split at h
  · cases h
  rename_i needed hneeded
  dsimp only at h
  split at h
  · cases h
  rename_i hrelas
  rw [not_not] at hrelas
  have hsub : vmas.Sublist vmas' := by
    cases hs : inv.service with
    | none => rw [hs] at hservice; cases hservice; exact .refl _
    | some l => rw [hs] at hservice; exact serviceCollectVmas_sublist hservice
  cases h
  exact ⟨hinfo, ⟨vmas, hcollect, hsub⟩, by simpa using hfresh, htarget, rfl, rfl, rfl,
    Prod.ext rfl hrelas⟩

/-- What `unpatch_process` knows when it gets to `revert_dyn_binpatch`. -/
structure UnpatchReady (ft : Faults) (inv : Invocation) (w : World) (ctx : Ctx) (p : Patch) :
    Prop where
  info : ∃ pi, elfInfoBinpatch inv.patchEi = .ok pi ∧
    findPatchByBid ctx.appliedPatches pi.patchBid = some p
  found : processCollectVmas ft (inv.maps w) = .ok (ctx.vmas, ctx.dlMaps, ctx.appliedPatches)
  dryRun : ctx.dryRun = inv.dryRun

theorem unpatchContext_ok {p : Patch} (h : unpatchContext ft inv w = .ok (ctx, p)) :
    UnpatchReady ft inv w ctx p := by
  rw [unpatchContext] at h
  split at h
  · cases h
  rename_i pi hinfo
  split at h
  · cases h
  rename_i vmas dlMaps applied hcollect
  split at h
  · cases h
  rename_i p' hfind
  cases h
  exact ⟨⟨pi, hinfo, hfind⟩, hcollect, rfl⟩

end

/-! ## Errors

A run that fails before it changes the process does not return zero. -/

theorem spliceVmaListsSorted_error {err : Int} :
    ∀ {l to_ : List Vma}, spliceVmaListsSorted l to_ = .error err → err ≠ 0
  | [], to_, h => by cases h
  | vma :: l, to_, h => by
      rw [spliceVmaListsSorted_cons] at h
      cases ha : addVmaSorted to_ vma with
      | error e => rw [ha] at h; cases h; exact addVmaSorted_error ha
      | ok l' => rw [ha] at h; exact spliceVmaListsSorted_error h

theorem processCollectVmas_error {ft : Faults} {maps : List Vma} {err : Int}
    (h : processCollectVmas ft maps = .error err) : err ≠ 0 := by
  rw [processCollectVmas] at h
  split at h
  · rename_i e hcollect
    cases h
    rw [collectVmas] at hcollect
    split at hcollect
    · cases hcollect
      decide
    · exact spliceVmaListsSorted_error hcollect
  · dsimp only at h
    split at h
    · rename_i hret
      cases h
      exact hret
    · split at h
      · rename_i hret
        cases h
        exact hret
      · cases h

theorem serviceCollectVmas_error {id : Nat} {serviceMaps vmas : List Vma} {err : Int}
    (h : serviceCollectVmas id serviceMaps vmas = .error err) : err ≠ 0 := by
  rw [serviceCollectVmas] at h
  split at h
  · rename_i e hcollect
    cases h
    exact spliceVmaListsSorted_error hcollect
  split at h
  · cases h
    decide
  split at h
  · rename_i e hcreate
    cases h
    rw [createDlMap] at hcreate
    dsimp only at hcreate
    split at hcreate
    · rename_i hret
      cases hcreate
      exact hret
    · cases hcreate
  · rename_i serviceVmas dlm _
    cases hsplice : spliceVmaListsSorted serviceVmas vmas with
    | error e => rw [hsplice] at h; cases h; exact spliceVmaListsSorted_error hsplice
    | ok l => rw [hsplice] at h; cases h

theorem collectNeededLoop_error {dlMaps : List DlMap} {err : Int} :
    ∀ {needed : List Addr}, collectNeededLoop dlMaps needed = .error err → err ≠ 0
  | [], h => by cases h
  | address :: l, h => by
      rw [collectNeededLoop] at h
      split at h
      · cases h
        decide
      · split at h
        · cases h
          decide
        · cases hl : collectNeededLoop dlMaps l with
          | error e => rw [hl] at h; cases h; exact collectNeededLoop_error hl
          | ok l' => rw [hl] at h; cases h

theorem patchContext_error {ft : Faults} {inv : Invocation} {w : World} {err : Int}
    (h : patchContext ft inv w = .error err) : err ≠ 0 := by
  rw [patchContext] at h
  split at h
  · cases h
    decide
  split at h
  · rename_i hcollect
    cases h
    exact processCollectVmas_error hcollect
  split at h
  · cases h
    decide
  split at h
  · cases h
    decide
  split at h
  · rename_i hservice
    cases h
    cases hs : inv.service with
    | none => rw [hs] at hservice; cases hservice
    | some l => rw [hs] at hservice; exact serviceCollectVmas_error hservice
  split at h
  · rename_i hneeded
    cases h
    rw [processCollectNeeded] at hneeded
    split at hneeded
    · cases hneeded
      decide
    · exact collectNeededLoop_error hneeded
  dsimp only at h
  split at h
  · rename_i hret
    cases h
    exact hret
  · cases h

theorem unpatchContext_error {ft : Faults} {inv : Invocation} {w : World} {err : Int}
    (h : unpatchContext ft inv w = .error err) : err ≠ 0 := by
  rw [unpatchContext] at h
  split at h
  · cases h
    decide
  split at h
  · rename_i hcollect
    cases h
    exact processCollectVmas_error hcollect
  split at h
  · cases h
    decide
  · cases h

/-! ## The applied patches -/

/-- A patch of the target that can be tuned. -/
theorem createPatchByDlm_tuned {dlMaps : List DlMap} {d target : DlMap} {pi : PatchInfo}
    {n n' : Nat}
    {p : Patch} (hv : d.ei.vzpatch = some (.ok pi))
    (ht : findDlMapByBid dlMaps pi.targetBid = some target) (hx : d.execVma.isSome = true)
    (htune : ∀ fj ∈ pi.funcJumps, Encodable (dlmLoadBase target + fj.funcValue) (destOf d fj) ∧
      codeReadable target fj = true)
    (h : createPatchByDlm {} dlMaps d n = .ok (p, n')) :
    p.targetDlm = some target ∧ p.patchDlm = d ∧ p.pi.patchBid = pi.patchBid ∧
      p.pi.funcJumps = pi.funcJumps.map (tunedJump target d) := by
  rw [createPatchByDlm, elfInfoBinpatch, hv] at h
  dsimp only [Except.map] at h
  rw [ht] at h
  dsimp only at h
  rw [if_pos hx] at h
  have hzeroed : TuneOk {} target d n (pi.funcJumps.map fun fj => { fj with
      funcAddr := 0, code := Vector.replicate 8 0, funcJump := Vector.replicate 8 0 }) := by
    refine ⟨fun fj' hfj' => ?_, fun _ _ => rfl⟩
    obtain ⟨fj, hfj, rfl⟩ := List.mem_map.mp hfj'
    obtain ⟨henc, hcode⟩ := htune fj hfj
    exact ⟨henc, hcode⟩
  have htuned := eachSafe_tune_ok hzeroed
  cases h
  refine ⟨rfl, rfl, rfl, ?_⟩
  rw [tunePatchFuncJumps]
  dsimp only
  rw [htuned, List.map_map]
  rfl

end Nsb
