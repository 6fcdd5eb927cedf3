import Nsb.Patcher.Placement

/-!
# Mapping and unmapping a patch

The segments of a patch are mapped one by one into the hole that was found for
them.  `World.mapAll_vmas` says that they end up there in order with everything
else as it was, and `World.unmapAll_vmas` that unmapping them gives the old
mappings back.  `processMmapDlMap_ok` and `processMunmapDlMap_ok` carry this over
to the two ways nsb has of doing it, by system calls and through the service.

System calls do not fail here, reads and writes may.  A failing write stops the
mapping before the first segment is mapped (`processMmapDlMap_error`).
-/

namespace Nsb

/-! ## One segment -/

/-- Unmapping does not touch a mapping that lies outside of the range. -/
theorem Vma.cut_outside {a : Addr} {n : BitVec 64} {v : Vma}
    (h : v.addr.toNat + v.length.toNat ≤ a.toNat ∨ a.toNat + n.toNat ≤ v.addr.toNat) :
    v.cut a n = [v] := if_pos h

theorem Vma.cut_self {v u : Vma} (h : 0 < v.length.toNat) (haddr : u.addr = v.addr)
    (hlen : u.length = v.length) : u.cut v.addr v.length = [] := by
  simp only [Vma.cut, haddr, hlen]
  rw [if_neg (by omega), if_neg (by omega), if_neg (by omega)]
  rfl

theorem flatMap_cut_outside {a : Addr} {n : BitVec 64} {l : List Vma}
    (h : ∀ v ∈ l, v.addr.toNat + v.length.toNat ≤ a.toNat ∨ a.toNat + n.toNat ≤ v.addr.toNat) :
    l.flatMap (Vma.cut a n) = l := by
  induction l with
  | nil => rfl
  | cons v l induction =>
      rw [List.flatMap_cons, Vma.cut_outside (h v (List.mem_cons_self ..)),
        induction fun u hu => h u (List.mem_cons_of_mem _ hu)]
      rfl

theorem insertMapping_between {v : Vma} {front back : List Vma} (hf : ∀ u ∈ front, u.addr < v.addr)
    (hb : ∀ u ∈ back, v.addr < u.addr) : insertMapping v (front ++ back) = front ++ v :: back := by
  have htake : ∀ u ∈ front, decide (u.addr < v.addr) = true := fun u hu => decide_eq_true (hf u hu)
  have hback : back.takeWhile (fun u => u.addr < v.addr) = [] ∧
      back.dropWhile (fun u => u.addr < v.addr) = back := by
    cases back with
    | nil => exact ⟨rfl, rfl⟩
    | cons u rest =>
        have hu : ¬ decide (u.addr < v.addr) = true := by
          rw [decide_eq_true_eq]
          exact BitVec.not_lt.mpr (BitVec.le_of_lt (hb u (List.mem_cons_self ..)))
        exact ⟨List.takeWhile_cons_of_neg hu, List.dropWhile_cons_of_neg hu⟩
  rw [insertMapping, List.takeWhile_append_of_pos htake, List.dropWhile_append_of_pos htake,
    hback.1,
    hback.2, List.append_nil]

/-- A segment that is mapped into a gap. -/
theorem World.mmap_vmas {path : Option String} {ei : ElfInfo} {v : Vma} {w : World}
    {front back : List Vma} (hw : w.vmas = front ++ back)
    (space : AddressSpace (front ++ v :: back)) :
    (w.mmap path ei v).vmas = front ++ fileVma path ei v :: back := by
  obtain ⟨-, hv, hcross⟩ := List.pairwise_append.mp space.below
  have hf : ∀ u ∈ front, u.addr.toNat + u.length.toNat ≤ v.addr.toNat :=
    fun u hu => hcross u hu v (List.mem_cons_self ..)
  have hb : ∀ u ∈ back, v.addr.toNat + v.length.toNat ≤ u.addr.toNat :=
    fun u hu => List.rel_of_pairwise_cons hv hu
  have hout : ∀ u ∈ front ++ back, u.addr.toNat + u.length.toNat ≤ v.addr.toNat ∨
      v.addr.toNat + v.length.toNat ≤ u.addr.toNat :=
    List.forall_mem_append.mpr ⟨fun u hu => .inl (hf u hu), fun u hu => .inr (hb u hu)⟩
  show insertMapping (fileVma path ei v) (w.vmas.flatMap (Vma.cut v.addr v.length)) = _
  rw [hw, flatMap_cut_outside hout]
  refine insertMapping_between (fun u hu => ?_) (fun u hu => ?_)
  · have hle := hf u hu
    have hpos := space.nonempty u (List.mem_append_left _ hu)
    show u.addr < v.addr
    rw [BitVec.lt_def]
    omega
  · have hle := hb u hu
    have hpos := space.nonempty v (List.mem_append_right _ (List.mem_cons_self ..))
    show v.addr < u.addr
    rw [BitVec.lt_def]
    omega

/-- Unmapping it again. -/
theorem World.munmap_vmas {u v : Vma} {w : World} {front back : List Vma}
    (hw : w.vmas = front ++ u :: back) (hrange : u.range = v.range)
    (space : AddressSpace (front ++ v :: back)) :
    (w.munmap v.addr v.length).vmas = front ++ back := by
  obtain ⟨-, hv, hcross⟩ := List.pairwise_append.mp space.below
  obtain ⟨haddr, hlen⟩ := Prod.mk.inj hrange
  have hpos := space.nonempty v (List.mem_append_right _ (List.mem_cons_self ..))
  show w.vmas.flatMap (Vma.cut v.addr v.length) = _
  rw [hw, List.flatMap_append, List.flatMap_cons, Vma.cut_self hpos haddr hlen,
    flatMap_cut_outside fun x hx => .inl (hcross x hx v (List.mem_cons_self ..)),
    flatMap_cut_outside fun x hx => .inr (List.rel_of_pairwise_cons hv hx)]
  rfl

/-! ## All segments -/

/-- Map segments of a file. -/
def World.mapAll (path : Option String) (ei : ElfInfo) (l : List Vma) (w : World) : World :=
  l.foldl (fun w v => w.mmap path ei v) w

/-- Unmap them. -/
def World.unmapAll (l : List Vma) (w : World) : World :=
  l.foldl (fun w v => w.munmap v.addr v.length) w

/-- The segments are in the gap, in order. -/
theorem World.mapAll_vmas {path : Option String} {ei : ElfInfo} {l front back : List Vma}
    {w : World} (hw : w.vmas = front ++ back) (space : AddressSpace (front ++ l ++ back)) :
    (w.mapAll path ei l).vmas = front ++ l.map (fileVma path ei) ++ back := by
  induction l generalizing front w with
  | nil =>
      rw [List.map_nil, List.append_nil]
      exact hw
  | cons v l induction =>
      have hone : AddressSpace (front ++ v :: back) := by
        refine space.sublist ?_
        rw [List.append_assoc]
        exact (List.Sublist.refl front).append
          (((List.nil_sublist l).append (.refl back)).cons_cons v)
      have hmap : (w.mmap path ei v).vmas = front ++ [fileVma path ei v] ++ back := by
        rw [World.mmap_vmas hw hone, List.append_assoc]
        rfl
      have hrest : AddressSpace (front ++ [fileVma path ei v] ++ l ++ back) := by
        refine space.congr ?_
        simp [Vma.range, fileVma]
      show ((w.mmap path ei v).mapAll path ei l).vmas = _
      rw [induction hmap hrest]
      simp

/-- Unmapping them gives the mappings back. -/
theorem World.unmapAll_vmas :
    ∀ {l l' front : List Vma} {back : List Vma} {w : World}, w.vmas = front ++ l' ++ back →
      l'.map Vma.range = l.map Vma.range → AddressSpace (front ++ l ++ back) →
      (w.unmapAll l).vmas = front ++ back
  | [], l', front, back, w, hw, hl, _ => by
      rw [List.map_nil, List.map_eq_nil_iff] at hl
      rw [hl, List.append_nil] at hw
      exact hw
  | v :: l, [], front, back, w, hw, hl, _ => by cases hl
  | v :: l, v' :: l', front, back, w, hw, hl, space => by
      obtain ⟨hv, hl'⟩ := List.cons.inj hl
      have hmid : AddressSpace (front ++ v :: (l' ++ back)) := by
        refine space.congr ?_
        simp [hl']
      have hun : (w.munmap v.addr v.length).vmas = front ++ l' ++ back := by
        rw [List.append_assoc, List.cons_append] at hw
        rw [World.munmap_vmas hw hv hmid, List.append_assoc]
      have hrest : AddressSpace (front ++ l ++ back) := by
        refine space.sublist ?_
        exact ((List.Sublist.refl front).append (List.sublist_cons_self v l)).append (.refl back)
      show ((w.munmap v.addr v.length).unmapAll l).vmas = _
      exact World.unmapAll_vmas hun hl' hrest

/-- Unmapping a mapping takes it out of the list, wherever it is. -/
theorem World.munmap_filter {u v : Vma} {w : World} (space : AddressSpace w.vmas) (hu : u ∈ w.vmas)
    (hrange : u.range = v.range) :
    (w.munmap v.addr v.length).vmas = w.vmas.filter fun x => x.addr != v.addr := by
  obtain ⟨haddr, hlen⟩ := Prod.mk.inj hrange
  have hpos : 0 < v.length.toNat := hlen ▸ space.nonempty u hu
  have hcut : ∀ x ∈ w.vmas, x.cut v.addr v.length = [x].filter fun x => x.addr != v.addr := by
    intro x hx
    by_cases heq : x.addr = v.addr
    · have hxu : x = u := space.strictlySorted.eq_of_addr hx hu (heq.trans haddr.symm)
      rw [hxu, Vma.cut_self hpos haddr hlen, List.filter_cons_of_neg (by simp [haddr])]
      rfl
    · have hne : x ≠ u := fun h => heq (h ▸ haddr)
      rw [Vma.cut_outside, List.filter_cons_of_pos (by simpa using heq)]
      · rfl
      · rw [← haddr, ← hlen]
        exact space.below_or hx hu hne
  show w.vmas.flatMap (Vma.cut v.addr v.length) = _
  rw [List.flatMap_congr hcut, ← List.filter_flatMap]
  simp

/-- Unmapping some of the mappings. -/
theorem World.unmapAll_filter {l : List Vma} {w : World} (space : AddressSpace w.vmas)
    (hl : ∀ v ∈ l, ∃ u ∈ w.vmas, u.range = v.range) (hs : StrictlySorted l) :
    (w.unmapAll l).vmas = w.vmas.filter fun x => l.all fun v => x.addr != v.addr := by
  induction l generalizing w with
  | nil => exact (List.filter_eq_self.mpr fun _ _ => rfl).symm
  | cons v l induction =>
      obtain ⟨hv, hs'⟩ := List.pairwise_cons.mp hs
      obtain ⟨u, hu, hrange⟩ := hl v (List.mem_cons_self ..)
      have hun := World.munmap_filter space hu hrange
      have hrest : ∀ x ∈ l, ∃ y ∈ (w.munmap v.addr v.length).vmas, y.range = x.range := by
        intro x hx
        obtain ⟨y, hy, hr⟩ := hl x (List.mem_cons_of_mem _ hx)
        refine ⟨y, ?_, hr⟩
        have hya : y.addr = x.addr := (Prod.mk.inj hr).1
        rw [hun, List.mem_filter, hya]
        exact ⟨hy, by simpa using (BitVec.ne_of_lt (hv x hx)).symm⟩
      have hspace : AddressSpace (w.munmap v.addr v.length).vmas := by
        rw [hun]
        exact space.sublist List.filter_sublist
      show ((w.munmap v.addr v.length).unmapAll l).vmas = _
      rw [induction hspace hrest hs', hun, List.filter_filter]
      simp only [List.all_cons, Bool.and_comm]

/-- Bytes apart from the segments stay. -/
theorem World.mapAll_read {path : Option String} {ei : ElfInfo} {b : Addr} {k : Nat}
    {l : List Vma} {w : World} (h : ∀ v ∈ l, Apart v.addr v.length.toNat b k) :
    (w.mapAll path ei l).mem.read b k = w.mem.read b k := by
  induction l generalizing w with
  | nil => rfl
  | cons v l induction =>
      show ((w.mmap path ei v).mapAll path ei l).mem.read b k = _
      rw [induction fun u hu => h u (List.mem_cons_of_mem _ hu)]
      exact Mem.read_fill_apart w.mem (fun d => ei.data (v.offset + d))
        (h v (List.mem_cons_self ..))

theorem World.unmapAll_mem (l : List Vma) (w : World) : (w.unmapAll l).mem = w.mem := by
  induction l generalizing w with
  | nil => rfl
  | cons v l induction => exact induction (w.munmap v.addr v.length)

theorem World.mapAll_calls (path : Option String) (ei : ElfInfo) (nwrite nsys : Nat)
    (l : List Vma) (w : World) : ({ w with nwrite := nwrite, nsys := nsys }).mapAll path ei l =
      { w.mapAll path ei l with nwrite := nwrite, nsys := nsys } := by
  induction l generalizing w with
  | nil => rfl
  | cons v l induction => exact induction (w.mmap path ei v)

/-- The call for a segment is counted before the segment is mapped. -/
theorem World.mapAll_step (path : Option String) (ei : ElfInfo) (v : Vma) (l : List Vma)
    (w : World) :
    (({ w with nsys := w.nsys + 1 }).mmap path ei v).mapAll path ei l =
      { w.mapAll path ei (v :: l) with nwrite := w.nwrite, nsys := w.nsys + 1 } :=
  World.mapAll_calls path ei w.nwrite (w.nsys + 1) l (w.mmap path ei v)

theorem World.unmapAll_calls (nwrite nsys : Nat) (l : List Vma) (w : World) :
    ({ w with nwrite := nwrite, nsys := nsys }).unmapAll l =
      { w.unmapAll l with nwrite := nwrite, nsys := nsys } := by
  induction l generalizing w with
  | nil => rfl
  | cons v l induction => exact induction (w.munmap v.addr v.length)

theorem World.mapAll_nread (path : Option String) (ei : ElfInfo) (l : List Vma) (w : World) :
    (w.mapAll path ei l).nread = w.nread := by
  induction l generalizing w with
  | nil => rfl
  | cons v l induction => exact induction (w.mmap path ei v)

/-! ## System calls -/

section

variable {ft : Faults} (hsys : ∀ n, ft.sys n = 0)
include hsys

theorem processSyscall_ok (effect : World → World) (w : World) :
    processSyscall ft effect w = (effect { w with nsys := w.nsys + 1 }, 0) := by
  rw [processSyscall, if_pos (hsys _)]

theorem mmapDlmLoop_mapAll {ctx : Ctx} (hservice : ctx.serviceLoaded = false) (dlm : DlMap)
    (l done : List Vma) (w : World) : ∃ n, mmapDlmLoop ft ctx dlm done l w =
      ({ w.mapAll dlm.path dlm.ei l with nwrite := w.nwrite, nsys := n }, 0) := by
  induction l generalizing done w with
  | nil => exact ⟨w.nsys, rfl⟩
  | cons v l induction =>
      obtain ⟨n, hn⟩ := induction (v :: done)
        (({ w with nsys := w.nsys + 1 }).mmap dlm.path dlm.ei v)
      refine ⟨n, ?_⟩
      rw [mmapDlmLoop, processMapVma, hservice, if_neg Bool.false_ne_true, processSyscall_ok hsys]
      dsimp only
      rw [if_neg (by decide), hn, World.mapAll_step]
      rfl

theorem serviceMmapLoop_mapAll (dlm : DlMap) (l done : List Vma) (w : World) :
    ∃ n, serviceMmapLoop ft dlm done l w =
      ({ w.mapAll dlm.path dlm.ei l with nwrite := w.nwrite, nsys := n }, 0) := by
  induction l generalizing done w with
  | nil => exact ⟨w.nsys, rfl⟩
  | cons v l induction =>
      obtain ⟨n, hn⟩ := induction (v :: done)
        (({ w with nsys := w.nsys + 1 }).mmap dlm.path dlm.ei v)
      refine ⟨n, ?_⟩
      rw [serviceMmapLoop, processSyscall_ok hsys]
      dsimp only
      rw [if_neg (by decide), hn, World.mapAll_step]
      rfl

/-- Unmapping by a series of system calls. -/
theorem each_munmap_unmapAll (l : List Vma) (w : World) :
    ∃ n, Loop.each (fun v => processSyscall ft (World.munmap v.addr v.length)) l w =
      ({ w.unmapAll l with nwrite := w.nwrite, nsys := n }, 0) := by
  induction l generalizing w with
  | nil => exact ⟨w.nsys, rfl⟩
  | cons v l induction =>
      obtain ⟨n, hn⟩ := induction
        (({ w with nsys := w.nsys + 1 }).munmap v.addr v.length)
      refine ⟨n, ?_⟩
      have hcalls : (({ w with nsys := w.nsys + 1 }).munmap v.addr v.length).unmapAll l =
          { (w.munmap v.addr v.length).unmapAll l with nwrite := w.nwrite, nsys := w.nsys + 1 } :=
        World.unmapAll_calls w.nwrite (w.nsys + 1) l (w.munmap v.addr v.length)
      rw [Loop.each_cons_ok (by rw [processSyscall_ok hsys]), processSyscall_ok hsys, hn, hcalls]
      rfl

/-! ## Objects -/

/-- The writes to the scratch region that mapping an object takes. -/
def loadWrites (ctx : Ctx) : Nat := if ctx.serviceLoaded then 2 else 1

/-- The conditions under which the segments get mapped: the service takes two of
them, and the writes to the scratch region succeed. -/
def LoadCallsOk (ft : Faults) (ctx : Ctx) (dlm : DlMap) (w : World) : Prop :=
  (ctx.serviceLoaded = true → dlm.vmas.length = 2) ∧ CallsOk ft.write w.nwrite (loadWrites ctx)

theorem serviceDo_ok {code : World → World × Int} {w : World} (h : ft.write w.nwrite = 0) :
    serviceDo ft code w = code { w with nwrite := w.nwrite + 1, nsys := w.nsys + 1 } := by
  rw [serviceDo, scratchWriteData, h]
  dsimp only
  rw [if_neg (by decide), processSyscall_ok hsys]
  rfl

omit hsys in
theorem serviceDo_error {code : World → World × Int} {w : World} (h : ft.write w.nwrite ≠ 0) :
    serviceDo ft code w = ({ w with nwrite := w.nwrite + 1 }, -(ft.write w.nwrite : Int)) := by
  rw [serviceDo, scratchWriteData]
  dsimp only
  rw [if_pos (by omega)]

theorem processMmapDlmManual_ok {ctx : Ctx} {dlm : DlMap} {w : World}
    (hservice : ctx.serviceLoaded = false) (h : ft.write w.nwrite = 0) :
    ∃ n, processMmapDlmManual ft ctx dlm w =
      ({ w.mapAll dlm.path dlm.ei dlm.vmas with nwrite := w.nwrite + 1, nsys := n }, 0) := by
  obtain ⟨n, hn⟩ := mmapDlmLoop_mapAll hsys hservice dlm dlm.vmas []
    { w with nwrite := w.nwrite + 1, nsys := w.nsys + 1 }
  refine ⟨n + 1, ?_⟩
  rw [World.mapAll_calls] at hn
  have hopen : processOpenFile ft w =
      ({ w with nwrite := w.nwrite + 1, nsys := w.nsys + 1 }, 0) := by
    rw [processOpenFile, scratchWriteData, h]
    dsimp only
    rw [if_neg (by decide), processSyscall_ok hsys]
    rfl
  rw [processMmapDlmManual, hopen]
  dsimp only
  rw [if_neg (by decide), hn]
  dsimp only
  rw [if_neg (by decide), processSyscall_ok hsys]
  rfl

omit hsys in
theorem processMmapDlmManual_error {ctx : Ctx} {dlm : DlMap} {w : World}
    (h : ft.write w.nwrite ≠ 0) :
    processMmapDlmManual ft ctx dlm w =
      ({ w with nwrite := w.nwrite + 1 }, -(ft.write w.nwrite : Int)) := by
  have hopen : processOpenFile ft w =
      ({ w with nwrite := w.nwrite + 1 }, -(ft.write w.nwrite : Int)) := by
    rw [processOpenFile, scratchWriteData]
    dsimp only
    rw [if_pos (by omega)]
  rw [processMmapDlmManual, hopen]
  dsimp only
  rw [if_pos (by omega)]

/-- A request that reaches the service. -/
theorem serviceRequest_ok {handler : World → World × Int} {w w' : World} {ret : Int}
    (h : ft.write w.nwrite = 0)
    (hh : handler { w with nwrite := w.nwrite + 1, nsys := w.nsys + 2 } = (w', ret)) :
    serviceRequest ft handler w =
      ({ w' with nsys := w'.nsys + 1 }, if ret < 0 then ret else 0) := by
  simp [serviceRequest, processSyscall_ok hsys, serviceDo_ok hsys, h, hh]

theorem serviceRequest_error {handler : World → World × Int} {w : World}
    (h : ft.write w.nwrite ≠ 0) :
    serviceRequest ft handler w =
      ({ w with nwrite := w.nwrite + 1, nsys := w.nsys + 1 }, -(ft.write w.nwrite : Int)) := by
  rw [serviceRequest, processSyscall_ok hsys]
  dsimp only
  rw [if_neg (by decide), serviceDo_error (by exact h)]
  dsimp only [id_eq]
  rw [if_pos (by omega)]

theorem processMmapDlmService_ok {dlm : DlMap} {w : World} (hlen : dlm.vmas.length = 2)
    (h0 : ft.write w.nwrite = 0) (h1 : ft.write (w.nwrite + 1) = 0) :
    ∃ n, processMmapDlmService ft dlm w =
      ({ w.mapAll dlm.path dlm.ei dlm.vmas with nwrite := w.nwrite + 2, nsys := n }, 0) := by
  obtain ⟨n, hn⟩ := serviceMmapLoop_mapAll hsys dlm dlm.vmas []
    { w with nwrite := w.nwrite + 2, nsys := w.nsys + 4 }
  refine ⟨n + 1, ?_⟩
  rw [World.mapAll_calls] at hn
  have hfits : ¬ dlm.vmas.length > maxMmaps := by
    rw [hlen]
    decide
  have hhandler : nsbServiceCmdMmap ft dlm { w with nwrite := w.nwrite + 2, nsys := w.nsys + 4 } =
      ({ w.mapAll dlm.path dlm.ei dlm.vmas with nwrite := w.nwrite + 2, nsys := n }, 0) := by
    rw [nsbServiceCmdMmap, if_neg hfits, if_neg (not_not_intro hlen), hn]
  rw [processMmapDlmService, serviceDo_ok hsys h0, processSyscall_ok hsys]
  dsimp only
  rw [if_neg (by decide), serviceMmapDlm, if_neg hfits,
    serviceRequest_ok hsys (by exact h1) (by exact hhandler)]
  rfl

/-- Without the answer of a successful mapping nothing is mapped. -/
theorem processMmapDlmService_error {dlm : DlMap} {w : World}
    (h : ¬ (dlm.vmas.length = 2 ∧ CallsOk ft.write w.nwrite 2)) :
    (processMmapDlmService ft dlm w).2 ≠ 0 ∧ (processMmapDlmService ft dlm w).1.mem = w.mem ∧
      (processMmapDlmService ft dlm w).1.vmas = w.vmas := by
  rw [callsOk_succ, callsOk_succ] at h
  rw [processMmapDlmService]
  by_cases h0 : ft.write w.nwrite = 0
  · rw [serviceDo_ok hsys h0, processSyscall_ok hsys]
    dsimp only
    rw [if_neg (by decide), serviceMmapDlm]
    split
    · exact ⟨(by decide : (-E2BIG : Int) ≠ 0), rfl, rfl⟩
    · rename_i hfits
      by_cases h1 : ft.write (w.nwrite + 1) = 0
      · have hlen : dlm.vmas.length ≠ 2 := fun hlen => h ⟨hlen, h0, h1, callsOk_zero _ _⟩
        have hhandler : ∀ w', nsbServiceCmdMmap ft dlm w' = (w', -EINVAL) := by
          intro w'
          rw [nsbServiceCmdMmap, if_neg hfits, if_pos hlen]
        rw [serviceRequest_ok hsys (by exact h1) (hhandler _)]
        exact ⟨(by decide : (-EINVAL : Int) ≠ 0), rfl, rfl⟩
      · rw [serviceRequest_error hsys (by exact h1)]
        refine ⟨?_, rfl, rfl⟩
        show -(ft.write (w.nwrite + 1) : Int) ≠ 0
        omega
  · rw [serviceDo_error h0]
    dsimp only
    rw [if_pos (by omega)]
    exact ⟨by dsimp only; omega, rfl, rfl⟩

/-- `process_mmap_dl_map` maps the segments. -/
theorem processMmapDlMap_ok {ctx : Ctx} {dlm : DlMap} {w : World} (hdry : ctx.dryRun = false)
    (h : LoadCallsOk ft ctx dlm w) :
    ∃ n, processMmapDlMap ft ctx dlm w =
      ({ w.mapAll dlm.path dlm.ei dlm.vmas with nwrite := w.nwrite + loadWrites ctx, nsys := n },
        0) := by
  obtain ⟨hlen, hcalls⟩ := h
  rw [processMmapDlMap, hdry, if_neg Bool.false_ne_true]
  rw [loadWrites] at hcalls ⊢
  cases hs : ctx.serviceLoaded with
  | false =>
      rw [hs] at hcalls
      exact processMmapDlmManual_ok hsys hs (callsOk_succ.mp hcalls).1
  | true =>
      rw [hs] at hcalls
      obtain ⟨h0, h1⟩ := callsOk_succ.mp hcalls
      exact processMmapDlmService_ok hsys (hlen hs) h0 (callsOk_succ.mp h1).1

/-- `process_mmap_dl_map` maps all of the segments or none. -/
theorem processMmapDlMap_error {ctx : Ctx} {dlm : DlMap} {w : World} (hdry : ctx.dryRun = false)
    (h : ¬ LoadCallsOk ft ctx dlm w) :
    (processMmapDlMap ft ctx dlm w).2 ≠ 0 ∧ (processMmapDlMap ft ctx dlm w).1.mem = w.mem ∧
      (processMmapDlMap ft ctx dlm w).1.vmas = w.vmas := by
  rw [LoadCallsOk, loadWrites] at h
  rw [processMmapDlMap, hdry, if_neg Bool.false_ne_true]
  cases hs : ctx.serviceLoaded with
  | false =>
      have h0 : ft.write w.nwrite ≠ 0 := by
        intro h0
        refine h ⟨fun hs' => absurd (hs.symm.trans hs') (by decide), ?_⟩
        rw [hs]
        exact callsOk_succ.mpr ⟨h0, callsOk_zero _ _⟩
      rw [if_neg Bool.false_ne_true, processMmapDlmManual_error h0]
      exact ⟨by dsimp only; omega, rfl, rfl⟩
  | true =>
      refine processMmapDlmService_error hsys fun hboth => h ⟨fun _ => hboth.1, ?_⟩
      rw [hs]
      exact hboth.2

/-- `process_munmap_dl_map` that returns zero has unmapped the segments. -/
theorem processMunmapDlMap_ok {ctx : Ctx} {dlm : DlMap} {w : World} (hdry : ctx.dryRun = false)
    (h : (processMunmapDlMap ft ctx dlm w).2 = 0) :
    (processMunmapDlMap ft ctx dlm w).1.mem = w.mem ∧
      (processMunmapDlMap ft ctx dlm w).1.vmas = (w.unmapAll dlm.vmas).vmas := by
  rw [processMunmapDlMap, hdry, if_neg Bool.false_ne_true] at h ⊢
  cases hs : ctx.serviceLoaded with
  | false =>
      rw [if_neg Bool.false_ne_true]
      have hunmap : processUnmapVma ft ctx =
          fun v => processSyscall ft (World.munmap v.addr v.length) := by
        funext v w'
        rw [processUnmapVma, hs, if_neg Bool.false_ne_true]
      obtain ⟨n, hn⟩ := each_munmap_unmapAll hsys dlm.vmas w
      rw [hunmap, hn]
      exact ⟨World.unmapAll_mem _ _, rfl⟩
  | true =>
      rw [hs, if_pos rfl] at h
      rw [if_pos rfl]
      rw [serviceMunmapDlm] at h ⊢
      split at h
      · cases h
      · rename_i hfits
        by_cases h0 : ft.write w.nwrite = 0
        · obtain ⟨n, hn⟩ := each_munmap_unmapAll hsys dlm.vmas
            { w with nwrite := w.nwrite + 1, nsys := w.nsys + 2 }
          rw [World.unmapAll_calls] at hn
          have hhandler : nsbServiceCmdMunmap ft dlm
              { w with nwrite := w.nwrite + 1, nsys := w.nsys + 2 } =
              ({ w.unmapAll dlm.vmas with nwrite := w.nwrite + 1, nsys := n }, 0) := by
            rw [nsbServiceCmdMunmap, if_neg hfits]
            exact hn
          rw [if_neg hfits, serviceRequest_ok hsys h0 hhandler]
          exact ⟨World.unmapAll_mem _ _, rfl⟩
        · rw [serviceRequest_error hsys h0] at h
          dsimp only at h
          omega

end

end Nsb
