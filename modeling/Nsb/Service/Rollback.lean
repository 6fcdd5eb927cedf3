import Nsb.Service.Load

/-!
# Loads that fail half-way

Both ways of loading a patch have an error path for a mapping that fails.
`process_mmap_dlm_manual` goes back from the mapping in front of it and removes
everything that it had made.  `nsb_service_cmd_mmap` starts at the mapping that
failed, so the first one stays and the region of the failing one is unmapped, which
the call had not mapped.

The file is closed by neither of them.  Only the way without an error ends in
`close`.
-/

namespace Nsb

/-- What a load has done to the process: the number of `mmap` calls, the regions
that it mapped and that are still there, the regions that it unmapped without having
mapped them, and the files that it closed. -/
structure LoadState where
  mmaps : Nat := 0
  mapped : List MapAddrInfo := []
  foreign : List MapAddrInfo := []
  closed : List (BitVec 32) := []

/-- The `k`-th `mmap` fails, and every other call succeeds. -/
def failingKernel (k errno : Nat) (result : Call → Nat) : Kernel LoadState
  | .mmap addr length prot flags fd offset, s =>
      if s.mmaps = k then ({ s with mmaps := s.mmaps + 1 }, -errno)
      else ({ s with mmaps := s.mmaps + 1, mapped := ⟨addr, length⟩ :: s.mapped },
        result (.mmap addr length prot flags fd offset))
  | .munmap addr length, s =>
      if ⟨addr, length⟩ ∈ s.mapped then
        ({ s with mapped := s.mapped.erase ⟨addr, length⟩ }, result (.munmap addr length))
      else ({ s with foreign := ⟨addr, length⟩ :: s.foreign }, result (.munmap addr length))
  | .close fd, s => ({ s with closed := fd :: s.closed }, result (.close fd))
  | .jump target, s => (s, result (.jump target))

/-- Nothing is left of the load: its regions are gone, no other one is, and the file
is closed. -/
def Undone (fd : BitVec 32) (s : LoadState) : Prop :=
  s.mapped = [] ∧ s.foreign = [] ∧ fd ∈ s.closed

instance (fd : BitVec 32) (s : LoadState) : Decidable (Undone fd s) :=
  inferInstanceAs (Decidable (_ ∧ _ ∧ _))

variable {k errno : Nat} {result : Call → Nat} {fd : BitVec 32}

/-! ## By system calls -/

/-- Going back over the regions that were mapped removes them all. -/
theorem unmapDone_failing (done : List Vma) (s : LoadState)
    (hmapped : s.mapped = done.map Vma.mapAddrInfo) :
    done.foldl (fun s vma => (failingKernel k errno result vma.mapAddrInfo.call s).1) s =
      { s with mapped := [] } := by
  induction done generalizing s with
  | nil =>
      rw [List.foldl_nil]
      rw [List.map_nil] at hmapped
      rw [← hmapped]
  | cons vma done induction =>
      have hstep : (failingKernel k errno result vma.mapAddrInfo.call s).1 =
          { s with mapped := done.map Vma.mapAddrInfo } := by
        rw [List.map_cons] at hmapped
        have hmem : vma.mapAddrInfo ∈ s.mapped := by
          rw [hmapped]
          exact List.mem_cons_self ..
        show (if vma.mapAddrInfo ∈ s.mapped then _ else _ : LoadState × Int).1 = _
        rw [if_pos hmem]
        show ({ s with mapped := s.mapped.erase vma.mapAddrInfo } : LoadState) = _
        rw [hmapped, List.erase_cons_head]
      rw [List.foldl_cons, hstep, induction _ rfl]

/-- The loop with a mapping that fails: everything it has made is removed. -/
theorem mapSegments_failing (herr : 0 < errno) (done l : List Vma) (s : LoadState)
    (hmapped : s.mapped = done.map Vma.mapAddrInfo) (hle : s.mmaps ≤ k)
    (hlt : k < s.mmaps + l.length) :
    mapSegments (failingKernel k errno result) fd done l s =
      ({ s with mmaps := k + 1, mapped := [] }, -(errno : Int)) := by
  induction l generalizing done s with
  | nil =>
      rw [List.length_nil] at hlt
      omega
  | cons vma l induction =>
      rw [mapSegments]
      by_cases hk : s.mmaps = k
      · have hcall : failingKernel k errno result (vma.mmapInfo.call fd) s =
            ({ s with mmaps := s.mmaps + 1 }, -(errno : Int)) := if_pos hk
        rw [hcall]
        dsimp only
        rw [if_pos (by omega), unmapDone_failing done _ (by exact hmapped), hk]
      · have hcall : failingKernel k errno result (vma.mmapInfo.call fd) s =
            ({ s with mmaps := s.mmaps + 1, mapped := vma.mapAddrInfo :: s.mapped },
              (result (vma.mmapInfo.call fd) : Int)) := if_neg hk
        rw [hcall]
        dsimp only
        rw [if_neg (by omega), induction (vma :: done)]
        · rw [List.map_cons, ← hmapped]
        · show s.mmaps + 1 ≤ k
          omega
        · show k < s.mmaps + 1 + l.length
          rw [List.length_cons] at hlt
          omega

/-- The regions of a failed load by system calls are gone, but no file is closed. -/
theorem processMmapDlmManual_failing (herr : 0 < errno) (ld : Loading) (dlm : DlMap)
    (hopen : 0 ≤ ld.openFd) (hk : k < dlm.vmas.length) :
    Load.processMmapDlmManual (failingKernel k errno result) ld dlm {} =
      ({ mmaps := k + 1 }, -(errno : Int)) := by
  have hloop : mapSegments (failingKernel k errno result) (BitVec.ofInt 32 ld.openFd) [] dlm.vmas
      {} = ({ mmaps := k + 1 }, -(errno : Int)) :=
    mapSegments_failing herr [] dlm.vmas {} rfl (Nat.zero_le k) (by simpa using hk)
  rw [Load.processMmapDlmManual, if_neg (Int.not_lt.mpr hopen)]
  dsimp only
  rw [hloop]
  exact if_pos (show -(errno : Int) < 0 by omega)

/-! ## Through the service -/

section

variable {h : Host LoadState} (hkernel : h.kernel = failingKernel k errno result)
include hkernel

theorem doMunmap_closed (mai : MapAddrInfo) (s : Serving LoadState) :
    (nsbServiceCmdDoMunmap h mai s).1.os.closed = s.os.closed := by
  have hcall : (h.kernel mai.call s.os).1.closed = s.os.closed := by
    rw [hkernel]
    show (if _ then _ else _ : LoadState × Int).1.closed = _
    split <;> rfl
  simp only [nsbServiceCmdDoMunmap]
  split
  · rw [responsePrint_os]
    exact hcall
  · exact hcall

theorem unmapBack_closed (l : List MmapInfo) (s : Serving LoadState) :
    (l.foldl (fun s mi => (nsbServiceCmdDoMunmap h mi.info s).1) s).os.closed = s.os.closed := by
  induction l generalizing s with
  | nil => rfl
  | cons mi l induction => rw [List.foldl_cons, induction, doMunmap_closed hkernel]

theorem doMmap_failing (herr : 0 < errno) (fd : BitVec 32) (mi : MmapInfo) (s : Serving LoadState) :
    (s.os.mmaps = k ∧ (nsbServiceCmdDoMmap h fd mi s).1.os = { s.os with mmaps := k + 1 } ∧
      (nsbServiceCmdDoMmap h fd mi s).2 = -errno) ∨
    (s.os.mmaps ≠ k ∧
      (nsbServiceCmdDoMmap h fd mi s).1.os =
        { s.os with mmaps := s.os.mmaps + 1, mapped := mi.info :: s.os.mapped } ∧
      (nsbServiceCmdDoMmap h fd mi s).2 = 0) := by
  by_cases hk : s.os.mmaps = k
  · have hcall : h.kernel (mi.call fd) s.os =
        ({ s.os with mmaps := s.os.mmaps + 1 }, -(errno : Int)) := by
      rw [hkernel]
      exact if_pos hk
    refine .inl ⟨hk, ?_⟩
    simp only [nsbServiceCmdDoMmap, hcall]
    rw [if_pos (show -(errno : Int) < 0 by omega)]
    refine ⟨?_, rfl⟩
    rw [responsePrint_os, ← hk]
  · have hcall : h.kernel (mi.call fd) s.os =
        ({ s.os with mmaps := s.os.mmaps + 1, mapped := mi.info :: s.os.mapped },
          (result (mi.call fd) : Int)) := by
      rw [hkernel]
      exact if_neg hk
    refine .inr ⟨hk, ?_⟩
    simp only [nsbServiceCmdDoMmap, hcall]
    rw [if_neg (by omega)]
    exact ⟨rfl, rfl⟩

/-- The loop of the service closes no file, and it fails with the mapping. -/
theorem cmdMmapLoop_failing (herr : 0 < errno) (fd : BitVec 32) (done l : List MmapInfo)
    (s : Serving LoadState) :
    (cmdMmapLoop h fd done l s).1.os.closed = s.os.closed ∧
      (s.os.mmaps ≤ k → k < s.os.mmaps + l.length → (cmdMmapLoop h fd done l s).2 = -errno) := by
  induction l generalizing done s with
  | nil =>
      refine ⟨rfl, fun hle hlt => ?_⟩
      rw [List.length_nil] at hlt
      omega
  | cons mi l induction =>
      simp only [cmdMmapLoop]
      rcases doMmap_failing hkernel herr fd mi s with ⟨hk, hos, hret⟩ | ⟨hk, hos, hret⟩
      · rw [if_pos (by rw [hret]; omega)]
        refine ⟨?_, fun _ _ => hret⟩
        rw [unmapBack_closed hkernel, hos]
      · rw [if_neg (by rw [hret]; exact not_not_intro rfl)]
        obtain ⟨hclosed, hfails⟩ := induction (mi :: done) (nsbServiceCmdDoMmap h fd mi s).1
        rw [hos] at hclosed hfails
        refine ⟨hclosed, fun hle hlt => hfails ?_ ?_⟩
        · show s.os.mmaps + 1 ≤ k
          omega
        · show k < s.os.mmaps + 1 + l.length
          rw [List.length_cons] at hlt
          omega

/-- A request that fails leaves the file open. -/
theorem nsbServiceCmdMmap_failing (herr : 0 < errno) (data : Buffer) (s : Serving LoadState) :
    ((Plugin.nsbServiceCmdMmap h data s).2 ≠ 0 →
      (Plugin.nsbServiceCmdMmap h data s).1.os.closed = s.os.closed) ∧
    ((nrMmaps data).toNat = 2 → s.os.mmaps ≤ k → k < s.os.mmaps + 2 →
      (Plugin.nsbServiceCmdMmap h data s).2 = -errno) := by
  obtain ⟨hclosed, hfails⟩ :=
    cmdMmapLoop_failing hkernel herr (mmapRequestFd data) [] (mmapRequestInfos data) s
  have hlen : (mmapRequestInfos data).length = (nrMmaps data).toNat := by
    simp [mmapRequestInfos, RecordLayout.elems, nrMmaps]
  rw [Plugin.nsbServiceCmdMmap]
  by_cases hmax : (nrMmaps data).toNat > maxMmaps
  · rw [if_pos hmax]
    refine ⟨fun _ => by rw [responsePrint_os], fun hnr _ _ => ?_⟩
    rw [hnr] at hmax
    exact absurd hmax (by decide)
  · rw [if_neg hmax]
    by_cases htwo : (nrMmaps data).toNat = 2
    · rw [if_neg (not_not_intro htwo)]
      rw [hlen, htwo] at hfails
      generalize cmdMmapLoop h (mmapRequestFd data) [] (mmapRequestInfos data) s = r
        at hclosed hfails
      obtain ⟨s', err⟩ := r
      dsimp only
      split
      · exact ⟨fun _ => hclosed, fun _ => hfails⟩
      · rename_i hzero
        refine ⟨fun hne => absurd rfl hne, fun _ hle hlt => ?_⟩
        have hret : err = -errno := hfails hle hlt
        omega
    · rw [if_pos htwo]
      exact ⟨fun _ => by rw [responsePrint_os], fun hnr _ _ => absurd hnr htwo⟩

end

/-! ## Both ways -/

/-- When a mapping fails, so does the load, and neither way takes it back as a
whole. -/
theorem failed_load_not_undone (k errno : Nat) (result : Call → Nat) (herr : 0 < errno) :
    (∀ (ld : Loading) (dlm : DlMap), 0 ≤ ld.openFd → k < dlm.vmas.length →
      (Load.processMmapDlmManual (failingKernel k errno result) ld dlm {}).2 = -errno ∧
      ¬ Undone (BitVec.ofInt 32 ld.openFd)
        (Load.processMmapDlmManual (failingKernel k errno result) ld dlm {}).1) ∧
    ∀ (h : Host LoadState) (data : Buffer), h.kernel = failingKernel k errno result →
      ((nrMmaps data).toNat = 2 → k < 2 →
        (Plugin.nsbServiceCmdMmap h data { os := {} }).2 = -errno) ∧
      ((Plugin.nsbServiceCmdMmap h data { os := {} }).2 ≠ 0 →
        ¬ Undone (mmapRequestFd data) (Plugin.nsbServiceCmdMmap h data { os := {} }).1.os) := by
  refine ⟨fun ld dlm hopen hk => ?_, fun h data hkernel => ?_⟩
  · rw [processMmapDlmManual_failing herr ld dlm hopen hk]
    exact ⟨rfl, fun hundone => List.not_mem_nil hundone.2.2⟩
  · obtain ⟨hclosed, hfails⟩ := nsbServiceCmdMmap_failing hkernel herr data { os := {} }
    refine ⟨fun hnr hk => hfails hnr (Nat.zero_le k) (by simpa using hk), fun hne hundone => ?_⟩
    have hmem := hundone.2.2
    rw [hclosed hne] at hmem
    exact List.not_mem_nil hmem

/-- A process in which the second `mmap` fails with `ENOMEM`. -/
def lowMemory : Kernel LoadState := failingKernel 1 12 fun _ => 0

/-- A request for the two segments of a patch, with file 5. -/
theorem twoSegments_requested :
    ∃ data, (nrMmaps data).toNat = 2 ∧ mmapRequestFd data = 5 ∧
      mmapRequestInfos data = twoSegments.vmas.map Vma.mmapInfo := by
  obtain ⟨bytes, -, -, -, -, hfd, hnr, hinfos⟩ :=
    @mmapRequest_received twoSegments 5 (by decide) Buffer.zeros
  exact ⟨_, hnr, hfd, hinfos⟩

theorem twoSegments_not_undone :
    (Load.processMmapDlmManual lowMemory plainLoading twoSegments {}).2 = -12 ∧
      ¬ Undone 3 (Load.processMmapDlmManual lowMemory plainLoading twoSegments {}).1 ∧
      ∃ data, (Plugin.nsbServiceCmdMmap { kernel := lowMemory } data { os := {} }).2 = -12 ∧
        ¬ Undone 5 (Plugin.nsbServiceCmdMmap { kernel := lowMemory } data { os := {} }).1.os := by
  obtain ⟨hmanual, hservice⟩ := failed_load_not_undone 1 12 (fun _ => 0) (by decide)
  obtain ⟨data, hnr, hfd, -⟩ := twoSegments_requested
  obtain ⟨hret, hleft⟩ := hmanual plainLoading twoSegments (by decide) (by decide)
  obtain ⟨hfails, hopen⟩ := hservice { kernel := lowMemory } data rfl
  have herr := hfails hnr (by decide)
  rw [hfd] at hopen
  refine ⟨hret, hleft, data, herr, hopen ?_⟩
  rw [herr]
  decide

/-- The service leaves the first segment mapped and unmaps the region of the second
one.  Files 3 and 5 stay open. -/
theorem secondSegment_left_over :
    (Load.processMmapDlmManual lowMemory plainLoading twoSegments {}).2 = -12 ∧
      ¬ Undone 3 (Load.processMmapDlmManual lowMemory plainLoading twoSegments {}).1 ∧
      ∃ data, mmapRequestInfos data = twoSegments.vmas.map Vma.mmapInfo ∧
        (Plugin.nsbServiceCmdMmap { kernel := lowMemory } data { os := {} }).2 = -12 ∧
        (Plugin.nsbServiceCmdMmap { kernel := lowMemory } data { os := {} }).1.os =
          { mmaps := 2, mapped := [⟨0x7f0000, 0x1000⟩], foreign := [⟨0x7f1000, 0x1000⟩] } ∧
        ¬ Undone 5 (Plugin.nsbServiceCmdMmap { kernel := lowMemory } data { os := {} }).1.os := by
  refine ⟨by decide, by decide, ?_⟩
  obtain ⟨data, hnr, hfd, hinfos⟩ := twoSegments_requested
  have hrun : (Plugin.nsbServiceCmdMmap { kernel := lowMemory } data { os := {} }).2 = -12 ∧
      (Plugin.nsbServiceCmdMmap { kernel := lowMemory } data { os := {} }).1.os =
        { mmaps := 2, mapped := [⟨0x7f0000, 0x1000⟩], foreign := [⟨0x7f1000, 0x1000⟩] } := by
    rw [Plugin.nsbServiceCmdMmap, hnr, hfd, hinfos]
    exact ⟨rfl, rfl⟩
  refine ⟨data, hinfos, hrun.1, hrun.2, ?_⟩
  rw [hrun.2]
  decide

end Nsb
