import Nsb.Patcher.DlMap

/-!
# What `collect_dl_maps` builds

On the sorted mappings of a process, `collect_dl_maps` cuts the mappings of ELF
files into runs of equal paths.  The objects are these runs in order
(`Collected.flat`), a new one begins where the path changes
(`Collected.chain`), and each has the ELF file of its first mapping
(`Collected.file`).  `Collected.groups_eq` puts it in one equation.
-/

namespace Nsb

/-- The mappings that `collect_dl_map_vma` does not skip. -/
def isDlVma (v : Vma) : Bool := v.mapFile.any isElfFile

/-- Two mappings have the same path. -/
def samePath (u v : Vma) : Bool := u.path == v.path

/-- Strictly sorted by start address, as the mappings of a process are. -/
def StrictlySorted (l : List Vma) : Prop := l.Pairwise fun u v => u.addr < v.addr

theorem StrictlySorted.eq_of_addr {l : List Vma} (h : StrictlySorted l) {u v : Vma} (hu : u ∈ l)
    (hv : v ∈ l) (haddr : u.addr = v.addr) : u = v := by
  by_contra hne
  have hdiff : l.Pairwise fun u v => u.addr ≠ v.addr := h.imp fun hlt => BitVec.ne_of_lt hlt
  have : Std.Symm fun u v : Vma => u.addr ≠ v.addr := ⟨fun _ _ hxy => hxy.symm⟩
  exact hdiff.forall hu hv hne haddr

/-- The objects after a part of the mappings. -/
structure Collected (vmas : List Vma) (dlMaps : List DlMap) : Prop where
  flat : dlMaps.flatMap DlMap.vmas = vmas.filter isDlVma
  nonempty : ∀ d ∈ dlMaps, d.vmas ≠ []
  path : ∀ d ∈ dlMaps, ∀ v ∈ d.vmas, v.path = d.path
  file : ∀ d ∈ dlMaps, ∃ v file, d.vmas.head? = some v ∧ v.mapFile = some file ∧
    elfCreateInfo file = .ok d.ei
  ids : dlMaps.map DlMap.id = List.range dlMaps.length
  chain : dlMaps.IsChain fun d e => d.path ≠ e.path

theorem Collected.nil : Collected [] [] := by
  constructor <;> simp

/-! ## One mapping -/

/-- Adding a mapping behind all others appends it. -/
theorem addDlVmaSorted_append {dlm dlm' : DlMap} {vma : Vma} (h : ∀ u ∈ dlm.vmas, u.addr < vma.addr)
    (ha : addDlVmaSorted dlm vma = .ok dlm') :
    dlm'.vmas = dlm.vmas ++ [vma] ∧ dlm'.id = dlm.id ∧ dlm'.path = dlm.path ∧ dlm'.ei = dlm.ei := by
  rw [addDlVmaSorted_eq] at ha
  split at ha
  · cases ha
  · rw [addVmaSorted_append h] at ha
    cases ha
    exact ⟨rfl, rfl, rfl, rfl⟩

theorem createDlMapByVma_ok {id : Nat} {vma : Vma} {file : MapFile} {dlm : DlMap}
    (h : createDlMapByVma id vma file = .ok dlm) :
    ∃ ei, elfCreateInfo file = .ok ei ∧ dlm = allocDlMap id ei vma.path := by
  rw [createDlMapByVma] at h
  cases hf : elfCreateInfo file with
  | error err => rw [hf] at h; cases h
  | ok ei => rw [hf] at h; cases h; exact ⟨ei, rfl, rfl⟩

/-- A mapping either goes on with the last object or opens a new one. -/
theorem dlMapFor_cases {vma : Vma} {file : MapFile} {head front : List DlMap} {dlm : DlMap}
    (h : dlMapFor vma file head = .ok (front, dlm)) :
    (head = front ++ [dlm] ∧ dlm.path = vma.path) ∨
    (front = head ∧ (∀ d ∈ head.getLast?, d.path ≠ vma.path) ∧
      ∃ ei, elfCreateInfo file = .ok ei ∧ dlm = allocDlMap head.length ei vma.path) := by
  have hopen : (createDlMapByVma head.length vma file).map (head, ·) = .ok (front, dlm) →
      front = head ∧ ∃ ei, elfCreateInfo file = .ok ei ∧
        dlm = allocDlMap head.length ei vma.path := by
    intro hm
    cases hc : createDlMapByVma head.length vma file with
    | error err => rw [hc] at hm; cases hm
    | ok d => rw [hc] at hm; cases hm; exact ⟨rfl, createDlMapByVma_ok hc⟩
  rw [dlMapFor] at h
  cases hlast : head.getLast? with
  | none =>
      rw [hlast] at h
      obtain ⟨h1, h2⟩ := hopen h
      exact .inr ⟨h1, (fun d hd => by cases hd), h2⟩
  | some last =>
      rw [hlast] at h
      dsimp only at h
      by_cases hp : last.path = vma.path
      · rw [if_pos hp] at h
        cases h
        obtain ⟨ys, rfl⟩ := List.getLast?_eq_some_iff.mp hlast
        exact .inl ⟨by rw [List.dropLast_concat], hp⟩
      · rw [if_neg hp] at h
        obtain ⟨h1, h2⟩ := hopen h
        refine .inr ⟨h1, fun d hd => ?_, h2⟩
        cases hd
        exact hp

theorem dlMapFor_error_ne_zero {vma : Vma} {file : MapFile} {head : List DlMap} {err : Int}
    (h : dlMapFor vma file head = .error err) : err ≠ 0 := by
  have hopen : (createDlMapByVma head.length vma file).map (head, ·) = .error err → err ≠ 0 := by
    intro hm
    rw [createDlMapByVma] at hm
    cases hf : elfCreateInfo file with
    | error e =>
        rw [hf] at hm
        cases hm
        exact Int.ne_of_lt (elfCreateInfo_error_neg hf)
    | ok ei => rw [hf] at hm; cases hm
  rw [dlMapFor] at h
  split at h
  · split at h
    · cases h
    · exact hopen h
  · exact hopen h

/-- What a call of `collect_dl_map_vma` that returns zero did: nothing for a
mapping without an ELF file, and otherwise it went on with the last object or
opened a new one. -/
theorem collectDlMapVma_cases {vma : Vma} {head : List DlMap}
    (h : (collectDlMapVma vma head).2.2 = 0) :
    (isDlVma vma = false ∧ (collectDlMapVma vma head).2.1 = head) ∨
    ∃ file front dlm dlm', vma.mapFile = some file ∧ isDlVma vma = true ∧
      dlMapFor vma file head = .ok (front, dlm) ∧ addDlVmaSorted dlm vma = .ok dlm' ∧
      (collectDlMapVma vma head).2.1 = front ++ [dlm'] := by
  rw [collectDlMapVma] at h ⊢
  rw [isDlVma]
  cases hm : vma.mapFile with
  | none => exact .inl ⟨rfl, rfl⟩
  | some file =>
      rw [hm] at h
      dsimp only at h ⊢
      cases he : isElfFile file with
      | false => exact .inl ⟨he, by simp⟩
      | true =>
          simp only [he, Bool.not_true, Bool.false_eq_true, if_false] at h ⊢
          right
          cases hd : dlMapFor vma file head with
          | error err =>
              rw [hd] at h
              exact absurd h (dlMapFor_error_ne_zero hd)
          | ok p =>
              obtain ⟨front, dlm⟩ := p
              rw [hd] at h
              dsimp only at h ⊢
              cases ha : addDlVmaSorted dlm vma with
              | error err =>
                  rw [ha] at h
                  exact absurd h (addDlVmaSorted_error_ne_zero ha)
              | ok dlm' => exact ⟨file, front, dlm, dlm', rfl, he, hd, ha, rfl⟩

/-! ## All mappings -/

theorem Collected.mem_addr {vmas : List Vma} {dlMaps : List DlMap} (h : Collected vmas dlMaps)
    {d : DlMap} (hd : d ∈ dlMaps) {v : Vma} (hv : v ∈ d.vmas) : v ∈ vmas ∧ isDlVma v = true := by
  have hmem : v ∈ dlMaps.flatMap DlMap.vmas := List.mem_flatMap.mpr ⟨d, hd, hv⟩
  rw [h.flat] at hmem
  exact List.mem_filter.mp hmem

theorem Collected.skip {vmas : List Vma} {dlMaps : List DlMap} (h : Collected vmas dlMaps)
    {vma : Vma} (hv : isDlVma vma = false) : Collected (vmas ++ [vma]) dlMaps := by
  have hf : (vmas ++ [vma]).filter isDlVma = vmas.filter isDlVma := by
    rw [List.filter_append, List.filter_singleton, hv]
    exact List.append_nil _
  exact ⟨hf ▸ h.flat, h.nonempty, h.path, h.file, h.ids, h.chain⟩

/-- A mapping that goes on with the last object. -/
theorem Collected.extend {vmas : List Vma} {front : List DlMap} {dlm dlm' : DlMap}
    (h : Collected vmas (front ++ [dlm])) {vma : Vma} (hv : isDlVma vma = true)
    (hp : dlm.path = vma.path) (hvs : dlm'.vmas = dlm.vmas ++ [vma]) (hid : dlm'.id = dlm.id)
    (hpath : dlm'.path = dlm.path) (hei : dlm'.ei = dlm.ei) :
    Collected (vmas ++ [vma]) (front ++ [dlm']) := by
  have hlast : dlm ∈ front ++ [dlm] := List.mem_append_right _ (List.mem_singleton_self _)
  have hfront : ∀ {d}, d ∈ front → d ∈ front ++ [dlm] := fun hd => List.mem_append_left _ hd
  refine ⟨?_, ?_, ?_, ?_, ?_, ?_⟩
  · have hflat := h.flat
    rw [List.flatMap_append, List.flatMap_singleton] at hflat ⊢
    rw [hvs, ← List.append_assoc, hflat, List.filter_append, List.filter_singleton, hv]
    rfl
  · refine List.forall_mem_append.mpr ⟨fun d hd => h.nonempty d (hfront hd), ?_⟩
    rw [List.forall_mem_singleton, hvs]
    exact List.append_ne_nil_of_right_ne_nil _ (List.cons_ne_nil _ _)
  · refine List.forall_mem_append.mpr ⟨fun d hd => h.path d (hfront hd), ?_⟩
    rw [List.forall_mem_singleton, hvs, hpath]
    exact List.forall_mem_append.mpr
      ⟨h.path dlm hlast, List.forall_mem_singleton.mpr hp.symm⟩
  · refine List.forall_mem_append.mpr ⟨fun d hd => h.file d (hfront hd), ?_⟩
    obtain ⟨v, file, hhead, hfile, hcreate⟩ := h.file dlm hlast
    rw [List.forall_mem_singleton, hvs, hei]
    exact ⟨v, file, by rw [List.head?_append, hhead]; rfl, hfile, hcreate⟩
  · have hids := h.ids
    simp only [List.map_append, List.map_cons, List.map_nil, List.length_append,
      List.length_singleton] at hids ⊢
    rw [hid]
    exact hids
  · have hc := h.chain
    rw [List.isChain_append] at hc ⊢
    refine ⟨hc.1, List.isChain_singleton _, ?_⟩
    intro d hd e he
    cases he
    rw [hpath]
    exact hc.2.2 d hd dlm rfl

/-- A mapping that opens a new object. -/
theorem Collected.open {vmas : List Vma} {head : List DlMap} {dlm' : DlMap}
    (h : Collected vmas head) {vma : Vma} {file : MapFile} {ei : ElfInfo}
    (hv : isDlVma vma = true) (hm : vma.mapFile = some file) (hf : elfCreateInfo file = .ok ei)
    (hp : ∀ d ∈ head.getLast?, d.path ≠ vma.path) (hvs : dlm'.vmas = [vma])
    (hid : dlm'.id = head.length) (hpath : dlm'.path = vma.path) (hei : dlm'.ei = ei) :
    Collected (vmas ++ [vma]) (head ++ [dlm']) := by
  refine ⟨?_, ?_, ?_, ?_, ?_, ?_⟩
  · rw [List.flatMap_append, List.flatMap_singleton, h.flat, hvs, List.filter_append,
      List.filter_singleton, hv]
    rfl
  · refine List.forall_mem_append.mpr ⟨h.nonempty, ?_⟩
    rw [List.forall_mem_singleton, hvs]
    exact List.cons_ne_nil _ _
  · refine List.forall_mem_append.mpr ⟨h.path, ?_⟩
    rw [List.forall_mem_singleton, hvs, hpath]
    exact List.forall_mem_singleton.mpr rfl
  · refine List.forall_mem_append.mpr ⟨h.file, ?_⟩
    rw [List.forall_mem_singleton, hvs, hei]
    exact ⟨vma, file, rfl, hm, hf⟩
  · simp only [List.map_append, List.map_cons, List.map_nil, List.length_append,
      List.length_singleton, List.range_succ, h.ids, hid]
  · rw [List.isChain_append]
    refine ⟨h.chain, List.isChain_singleton _, ?_⟩
    intro d hd e he
    cases he
    rw [hpath]
    exact hp d hd

/-- `collect_dl_maps` on the sorted mappings of a process. -/
theorem collectDlMaps_collected {vmas : List Vma} (hs : StrictlySorted vmas)
    (hret : (collectDlMaps vmas).2.2 = 0) : Collected vmas (collectDlMaps vmas).2.1 := by
  refine (Loop.eachSafe_prefix (I := fun front head => Collected front head ∧ ∀ d ∈ head, DlMapOk d)
    ?_ rfl ⟨Collected.nil, fun d hd => by cases hd⟩ hret).1
  rintro front vma back head hwhole ⟨hc, hok⟩ hr
  refine ⟨?_, collectDlMapVma_ok vma head hok⟩
  have hbelow : ∀ u ∈ front, u.addr < vma.addr := by
    intro u hu
    rw [List.nil_append] at hwhole
    rw [hwhole] at hs
    exact (List.pairwise_append.mp hs).2.2 u hu vma (List.mem_cons_self ..)
  obtain ⟨hskip, hhead⟩ | ⟨file, fr, dlm, dlm', hm, hv, hfor, hadd, hhead⟩ :=
    collectDlMapVma_cases hr
  · rw [hhead]
    exact hc.skip hskip
  · rw [hhead]
    obtain ⟨rfl, hp⟩ | ⟨rfl, hp, ei, hf, rfl⟩ := dlMapFor_cases hfor
    · have hlast : dlm ∈ fr ++ [dlm] := List.mem_append_right _ (List.mem_singleton_self _)
      obtain ⟨hvs, hid, hpath, hei⟩ :=
        addDlVmaSorted_append (fun u hu => hbelow u (hc.mem_addr hlast hu).1) hadd
      exact hc.extend hv hp hvs hid hpath hei
    · obtain ⟨hvs, hid, hpath, hei⟩ := addDlVmaSorted_append (fun u hu => by cases hu) hadd
      exact hc.open hv hm hf hp hvs hid hpath hei

/-- The objects are the runs of equal paths. -/
theorem Collected.groups_eq {vmas : List Vma} {dlMaps : List DlMap} (h : Collected vmas dlMaps) :
    dlMaps.map DlMap.vmas = (vmas.filter isDlVma).splitBy samePath := by
  symm
  rw [List.splitBy_eq_iff]
  refine ⟨?_, ?_, ?_, ?_⟩
  · rw [← h.flat, List.flatMap_def]
  · intro hnil
    obtain ⟨d, hd, he⟩ := List.mem_map.mp hnil
    exact h.nonempty d hd he
  · intro m hm
    obtain ⟨d, hd, rfl⟩ := List.mem_map.mp hm
    refine List.Pairwise.isChain (List.pairwise_of_forall_mem_list ?_)
    intro u hu v hv
    simp [samePath, h.path d hd u hu, h.path d hd v hv]
  · rw [List.isChain_map]
    refine h.chain.imp_of_mem_imp ?_
    intro d e hd he hne
    refine ⟨h.nonempty d hd, h.nonempty e he, ?_⟩
    have h1 := h.path d hd _ (List.getLast_mem (h.nonempty d hd))
    have h2 := h.path e he _ (List.head_mem (h.nonempty e he))
    simpa [samePath, h1, h2] using hne

end Nsb
