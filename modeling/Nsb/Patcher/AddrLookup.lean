import Nsb.Patcher.Session
import Nsb.Patcher.Collect

/-!
# Objects by address

`find_dl_map_by_addr` of `patcher/dl_map.c` on the objects that
`collect_dl_maps` builds.

The objects are runs of the mappings, so the ranges `[dl_map_start, dl_map_end)`
follow each other.  `compare_addr` also takes the address behind the last byte
for one of the object, and the address may be the first of the next.
-/

namespace Nsb

/-- The mappings of a process: sorted, none of them empty, and none overlaps
another. -/
structure SortedDisjoint (vmas : List Vma) : Prop where
  nonempty : ∀ v ∈ vmas, v.addr < vmaEnd v
  apart : vmas.Pairwise fun u v => vmaEnd u ≤ v.addr

theorem SortedDisjoint.strictlySorted {vmas : List Vma} (h : SortedDisjoint vmas) :
    StrictlySorted vmas := by
  refine List.Pairwise.imp_of_mem ?_ h.apart
  intro u v hu _ hle
  exact Std.lt_of_lt_of_le (h.nonempty u hu) hle

theorem SortedDisjoint.sublist {vmas vmas' : List Vma} (h : SortedDisjoint vmas)
    (hsub : vmas'.Sublist vmas) : SortedDisjoint vmas' :=
  ⟨fun v hv => h.nonempty v (hsub.subset hv), h.apart.sublist hsub⟩

/-- The range of an object. -/
def DlMap.Contains (dlm : DlMap) (addr : Addr) : Prop :=
  dlMapStart dlm ≤ addr ∧ addr < dlMapEnd dlm

/-- Objects whose ranges follow each other. -/
structure RangesApart (dlMaps : List DlMap) : Prop where
  nonempty : ∀ d ∈ dlMaps, dlMapStart d < dlMapEnd d
  apart : dlMaps.Pairwise fun d e => dlMapEnd d ≤ dlMapStart e

/-- The first mapping of a list starts in front of the end of the last. -/
theorem SortedDisjoint.head_lt_last {vmas : List Vma} (h : SortedDisjoint vmas) {first last : Vma}
    (hfirst : vmas.head? = some first) (hlast : vmas.getLast? = some last) :
    first.addr < vmaEnd last := by
  have hmem := List.mem_of_getLast? hlast
  obtain ⟨rest, rfl⟩ := List.head?_eq_some_iff.mp hfirst
  rcases List.mem_cons.mp hmem with rfl | hrest
  · exact h.nonempty _ List.mem_cons_self
  · have hlt := (List.pairwise_cons.mp h.strictlySorted).1 last hrest
    exact BitVec.lt_trans hlt (h.nonempty last hmem)

theorem dlMapStart_eq {d : DlMap} {first : Vma} (h : d.vmas.head? = some first) :
    dlMapStart d = first.addr := by
  rw [dlMapStart, firstDlVma, h]
  rfl

theorem dlMapEnd_eq {d : DlMap} {last : Vma} (h : d.vmas.getLast? = some last) :
    dlMapEnd d = vmaEnd last := by
  rw [dlMapEnd, lastDlVma, h]
  rfl

/-- The ranges of the collected objects follow each other. -/
theorem Collected.rangesApart {vmas : List Vma} {dlMaps : List DlMap} (h : Collected vmas dlMaps)
    (hvmas : SortedDisjoint vmas) : RangesApart dlMaps := by
  have hflat := hvmas.sublist (List.filter_sublist (p := isDlVma))
  rw [← h.flat] at hflat
  obtain ⟨_, hpair⟩ := List.pairwise_flatMap.mp hflat.apart
  have hfirst : ∀ d ∈ dlMaps, ∃ v, d.vmas.head? = some v :=
    fun d hd => ⟨_, List.head?_eq_some_head (h.nonempty d hd)⟩
  have hlast : ∀ d ∈ dlMaps, ∃ v, d.vmas.getLast? = some v :=
    fun d hd => ⟨_, List.getLast?_eq_some_getLast (h.nonempty d hd)⟩
  constructor
  · intro d hd
    obtain ⟨first, hf⟩ := hfirst d hd
    obtain ⟨last, hl⟩ := hlast d hd
    rw [dlMapStart_eq hf, dlMapEnd_eq hl]
    have hsub : d.vmas.Sublist (dlMaps.flatMap DlMap.vmas) := by
      rw [List.flatMap_def]
      exact List.sublist_flatten_of_mem (List.mem_map_of_mem hd)
    exact (hflat.sublist hsub).head_lt_last hf hl
  · refine List.Pairwise.imp_of_mem ?_ hpair
    intro d e hd he hall
    obtain ⟨first, hf⟩ := hfirst e he
    obtain ⟨last, hl⟩ := hlast d hd
    rw [dlMapEnd_eq hl, dlMapStart_eq hf]
    exact hall last (List.mem_of_getLast? hl) first (List.mem_of_head? hf)

/-! ## The lookup -/

theorem compareAddr_iff {a : Addr} {d : DlMap} :
    compareAddr a d = true ↔ dlMapStart d ≤ a ∧ a ≤ dlMapEnd d := by
  rw [compareAddr]
  split
  · next hlt => simp [Std.not_le.mpr hlt]
  · next hge =>
    split
    · next hgt => simp [Std.not_le.mpr hgt]
    · next hle => simp [Std.not_lt.mp hge, Std.not_lt.mp hle]

/-- Away from its end, `compare_addr` tells whether an object has the address. -/
theorem compareAddr_iff_contains {a : Addr} {d : DlMap} (h : dlMapEnd d ≠ a) :
    compareAddr a d = true ↔ d.Contains a := by
  rw [compareAddr_iff, DlMap.Contains]
  refine and_congr_right fun _ => ⟨fun hle => ?_, BitVec.le_of_lt⟩
  exact Std.lt_of_le_of_ne hle h.symm

/-- Two objects do not have an address in common. -/
theorem RangesApart.disjoint {dlMaps : List DlMap} (h : RangesApart dlMaps) :
    dlMaps.Pairwise fun d e => ∀ a, ¬ (d.Contains a ∧ e.Contains a) := by
  refine h.apart.imp ?_
  rintro d e hle a ⟨hd, he⟩
  exact Std.lt_irrefl (Std.lt_of_lt_of_le hd.2 (Std.le_trans hle he.1))

theorem RangesApart.eq_of_contains {dlMaps : List DlMap} (h : RangesApart dlMaps) {d e : DlMap}
    (hd : d ∈ dlMaps) (he : e ∈ dlMaps) {a : Addr} (hda : d.Contains a) (hea : e.Contains a) :
    d = e := by
  by_contra hne
  have : Std.Symm fun d e : DlMap => ∀ a, ¬ (d.Contains a ∧ e.Contains a) :=
    ⟨fun _ _ hxy a ⟨hy, hx⟩ => hxy a ⟨hx, hy⟩⟩
  exact h.disjoint.forall hd he hne a ⟨hda, hea⟩

/-- The lookup of an address is exact: it finds the object that has the address,
and nothing if no object has it. -/
def LookupExact (dlMaps : List DlMap) (a : Addr) : Prop :=
  (∀ d ∈ dlMaps, findDlMapByAddr dlMaps a = some d ↔ d.Contains a) ∧
    ((∀ d ∈ dlMaps, ¬ d.Contains a) → findDlMapByAddr dlMaps a = none)

theorem RangesApart.lookupExact {dlMaps : List DlMap} (h : RangesApart dlMaps) {a : Addr}
    (ha : ∀ d ∈ dlMaps, dlMapEnd d ≠ a) : LookupExact dlMaps a := by
  constructor
  · intro d hd
    constructor
    · intro hfind
      exact (compareAddr_iff_contains (ha d hd)).mp (List.find?_some hfind)
    · intro hcontains
      cases hfind : findDlMapByAddr dlMaps a with
      | none =>
          have hnot := List.find?_eq_none.mp hfind d hd
          exact absurd ((compareAddr_iff_contains (ha d hd)).mpr hcontains) hnot
      | some e =>
          have he := List.mem_of_find?_eq_some hfind
          have hea := (compareAddr_iff_contains (ha e he)).mp (List.find?_some hfind)
          rw [h.eq_of_contains he hd hea hcontains]
  · intro hnone
    refine List.find?_eq_none.mpr fun d hd hcmp => ?_
    exact hnone d hd ((compareAddr_iff_contains (ha d hd)).mp hcmp)

/-- At the end of an object the lookup finds an object that does not have the
address: the first that passes the comparison ends there or in front of it. -/
theorem RangesApart.not_lookupExact {dlMaps : List DlMap} (h : RangesApart dlMaps) {d : DlMap}
    (hd : d ∈ dlMaps) : ¬ LookupExact dlMaps (dlMapEnd d) := by
  rintro ⟨hexact, _⟩
  have hcmp : compareAddr (dlMapEnd d) d = true :=
    compareAddr_iff.mpr ⟨BitVec.le_of_lt (h.nonempty d hd), BitVec.le_refl _⟩
  cases hfind : findDlMapByAddr dlMaps (dlMapEnd d) with
  | none => exact List.find?_eq_none.mp hfind d hd hcmp
  | some e =>
      have hea := (hexact e (List.mem_of_find?_eq_some hfind)).mp hfind
      obtain ⟨_, front, back, rfl, hfront⟩ := List.find?_eq_some_iff_append.mp hfind
      rw [List.mem_append, List.mem_cons] at hd
      rcases hd with hd | rfl | hd
      · have hnot := hfront d hd
        rw [hcmp] at hnot
        cases hnot
      · exact Std.lt_irrefl hea.2
      · have hle := (List.pairwise_cons.mp (List.pairwise_append.mp h.apart).2.1).1 d hd
        have hlt := h.nonempty d (List.mem_append_right _ (List.mem_cons_of_mem _ hd))
        have hbehind := BitVec.le_of_lt (Std.lt_of_le_of_lt hle hlt)
        exact Std.lt_irrefl (Std.lt_of_lt_of_le hea.2 hbehind)

/-- The address is the end of a run of mappings with one path, among the mappings
of ELF files. -/
def EndOfRun (vmas : List Vma) (a : Addr) : Prop :=
  ∃ run ∈ (vmas.filter isDlVma).splitBy samePath, ∃ last ∈ run.getLast?, vmaEnd last = a

theorem Collected.endOfRun_iff {vmas : List Vma} {dlMaps : List DlMap} (h : Collected vmas dlMaps)
    {a : Addr} : EndOfRun vmas a ↔ ∃ d ∈ dlMaps, dlMapEnd d = a := by
  rw [EndOfRun, ← h.groups_eq]
  constructor
  · rintro ⟨run, hrun, last, hlast, rfl⟩
    obtain ⟨d, hd, rfl⟩ := List.mem_map.mp hrun
    exact ⟨d, hd, dlMapEnd_eq hlast⟩
  · rintro ⟨d, hd, rfl⟩
    have hlast := List.getLast?_eq_some_getLast (h.nonempty d hd)
    exact ⟨d.vmas, List.mem_map_of_mem hd, _, hlast, (dlMapEnd_eq hlast).symm⟩

/-- The ranges of the objects are disjoint, and the lookup of an address is exact
unless the address is the end of a run. -/
theorem findDlMapByAddr_exact_iff {vmas : List Vma} (h : SortedDisjoint vmas)
    (hret : (collectDlMaps vmas).2.2 = 0) :
    (collectDlMaps vmas).2.1.Pairwise (fun d e => ∀ a, ¬ (d.Contains a ∧ e.Contains a)) ∧
      ∀ a, LookupExact (collectDlMaps vmas).2.1 a ↔ ¬ EndOfRun vmas a := by
  have hcollected := collectDlMaps_collected h.strictlySorted hret
  have hranges := hcollected.rangesApart h
  refine ⟨hranges.disjoint, fun a => ⟨fun hexact hend => ?_, fun hend => ?_⟩⟩
  · obtain ⟨d, hd, rfl⟩ := hcollected.endOfRun_iff.mp hend
    exact hranges.not_lookupExact hd hexact
  · refine hranges.lookupExact fun d hd heq => hend ?_
    exact hcollected.endOfRun_iff.mpr ⟨d, hd, heq⟩

/-- Two libraries that are mapped back to back. -/
def backToBack : List Vma :=
  [⟨0x1000, 0x1000, 2, 5, 0, some "liba.so", some (.elf {}), none⟩,
    ⟨0x2000, 0x1000, 2, 5, 0, some "libb.so", some (.elf {}), none⟩]

theorem backToBack_sortedDisjoint : SortedDisjoint backToBack :=
  ⟨by simp [backToBack, vmaEnd], by simp [backToBack, vmaEnd]⟩

/-- The last address of the first library is found. -/
theorem backToBack_last_byte : LookupExact (collectDlMaps backToBack).2.1 0x1fff := by
  refine ((findDlMapByAddr_exact_iff backToBack_sortedDisjoint rfl).2 0x1fff).mpr ?_
  rintro ⟨run, hrun, last, hlast, heq⟩
  have hruns : (backToBack.filter isDlVma).splitBy samePath =
      [[⟨0x1000, 0x1000, 2, 5, 0, some "liba.so", some (.elf {}), none⟩],
        [⟨0x2000, 0x1000, 2, 5, 0, some "libb.so", some (.elf {}), none⟩]] := rfl
  rw [hruns] at hrun
  rcases List.mem_pair.mp hrun with rfl | rfl
  · cases hlast
    exact absurd heq (by decide)
  · cases hlast
    exact absurd heq (by decide)

/-- The first address of the second library is found in the first. -/
theorem backToBack_first_byte :
    SortedDisjoint backToBack ∧ (collectDlMaps backToBack).2.2 = 0 ∧
      ∃ d e, (collectDlMaps backToBack).2.1 = [d, e] ∧ d.path = some "liba.so" ∧
        findDlMapByAddr [d, e] 0x2000 = some d ∧ e.Contains 0x2000 ∧ ¬ d.Contains 0x2000 ∧
        ¬ LookupExact [d, e] 0x2000 := by
  refine ⟨backToBack_sortedDisjoint, rfl, _, _, rfl, rfl, rfl, ?_, ?_, ?_⟩
  · exact ⟨by decide, by decide⟩
  · exact fun hd => absurd hd.2 (by decide)
  · exact fun hexact => absurd ((hexact.1 _ List.mem_cons_self).mp rfl).2 (by decide)

end Nsb
