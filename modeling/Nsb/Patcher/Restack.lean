import Nsb.Patcher.Stacked

/-!
# One more run

The two commands on a process with patches.  `Stacked.patch` is for
`patch_process`: the new patch is the last one applied, and it has to be put
behind the patches that have functions in common with it.  `Stacked.unpatch` is
for `unpatch_process`: it may take out any patch, and what it writes back is the
jump of the patch in front of it in the order of addresses, which is the order of
application where it matters.

No call fails in this module.
-/

namespace Nsb

section

variable {w₀ w w' : World} {bid : String} {target : DlMap} {F : Set (BitVec 64)}
  {U : Set Invocation} {gs : List (List Vma)} {as as₁ as₂ ms : List DlMap} {m : DlMap}

/-! ## Taking a patch out -/

/-- The groups without those of a patch. -/
theorem filter_patch_split {l₁ l₂ : List (List Vma)} {g : List Vma}
    (h : gs.filter isPatchGroup = l₁ ++ g :: l₂) :
    ∃ gs₁ gs₂, gs = gs₁ ++ g :: gs₂ ∧ isPatchGroup g = true ∧ gs₁.filter isPatchGroup = l₁ ∧
      gs₂.filter isPatchGroup = l₂ := by
  obtain ⟨front, rest, rfl, hfront, hrest⟩ := List.filter_eq_append_iff.mp h
  obtain ⟨mid, gs₂, rfl, hmid, hg, hgs₂⟩ := List.filter_eq_cons_iff.mp hrest
  refine ⟨front ++ mid, gs₂, by rw [List.append_assoc], hg, ?_, hgs₂⟩
  rw [List.filter_append, hfront, List.filter_eq_nil_iff.mpr hmid, List.append_nil]

/-- The mappings that start with none of a group are those of the other groups. -/
theorem flatten_without {gs₁ gs₂ : List (List Vma)} {g : List Vma}
    (h : StrictlySorted (gs₁ ++ g :: gs₂).flatten) :
    (gs₁ ++ g :: gs₂).flatten.filter (fun x => g.all fun v => x.addr != v.addr) =
      (gs₁ ++ gs₂).flatten := by
  rw [List.flatten_append, List.flatten_cons] at h ⊢
  obtain ⟨-, hrest, hcross₁⟩ := List.pairwise_append.mp h
  obtain ⟨-, -, hcross₂⟩ := List.pairwise_append.mp hrest
  have hnone : g.filter (fun x => g.all fun v => x.addr != v.addr) = [] := by
    refine List.filter_eq_nil_iff.mpr fun x hx hall => ?_
    have hself := List.all_eq_true.mp hall x hx
    simp at hself
  have hk₁ : gs₁.flatten.filter (fun x => g.all fun v => x.addr != v.addr) = gs₁.flatten := by
    refine List.filter_eq_self.mpr fun x hx => List.all_eq_true.mpr fun v hv => ?_
    simpa using BitVec.ne_of_lt (hcross₁ x hx v (List.mem_append_left _ hv))
  have hk₂ : gs₂.flatten.filter (fun x => g.all fun v => x.addr != v.addr) = gs₂.flatten := by
    refine List.filter_eq_self.mpr fun x hx => List.all_eq_true.mpr fun v hv => ?_
    simpa using (BitVec.ne_of_lt (hcross₂ v hv x hx)).symm
  rw [List.filter_append, List.filter_append, hnone, List.nil_append, hk₁, hk₂, List.flatten_append]

/-- The patches without the one that has the build ID of `m`. -/
theorem filter_bid_ne
    (h : (as₁ ++ m :: as₂).Pairwise fun m m' => patchBidOf m.ei ≠ patchBidOf m'.ei) :
    (as₁ ++ m :: as₂).filter (fun x => patchBidOf x.ei != patchBidOf m.ei) = as₁ ++ as₂ := by
  obtain ⟨-, hcons, hcross⟩ := List.pairwise_append.mp h
  have hk₁ : as₁.filter (fun x => patchBidOf x.ei != patchBidOf m.ei) = as₁ :=
    List.filter_eq_self.mpr fun a ha => by simpa using hcross a ha m (List.mem_cons_self ..)
  have hk₂ : as₂.filter (fun x => patchBidOf x.ei != patchBidOf m.ei) = as₂ :=
    List.filter_eq_self.mpr fun a ha => by simpa using (List.rel_of_pairwise_cons hcons ha).symm
  rw [List.filter_append, List.filter_cons_of_neg (by simp), hk₁, hk₂]

/-- Without the mappings of a patch the process is one with the other patches. -/
theorem Stacked.remove (h : Stacked w₀ target F U w gs (as₁ ++ m :: as₂) ms)
    (hv : w'.vmas = w.vmas.filter fun x => (block m).all fun v => x.addr != v.addr)
    (hb : ∀ f ∈ F, w'.mem.read (dlmLoadBase target + f) 8 =
      entryBytes w₀ (dlmLoadBase target) f (Layers.top covers f (as₁ ++ as₂))) :
    ∃ gs', Stacked w₀ target F U w' gs' (as₁ ++ as₂)
      (ms.filter fun x => patchBidOf x.ei != patchBidOf m.ei) := by
  have hpatches := h.patches
  rw [List.map_append, List.map_cons] at hpatches
  obtain ⟨gs₁, gs₂, rfl, hm, h₁, h₂⟩ := filter_patch_split hpatches
  have hsub : (as₁ ++ as₂).Sublist (as₁ ++ m :: as₂) :=
    (List.Sublist.refl as₁).append (List.sublist_cons_self m as₂)
  have hkeep := filter_bid_ne h.bids
  have horder : Layers.SameOrder covers (as₁ ++ as₂)
      (ms.filter fun x => patchBidOf x.ei != patchBidOf m.ei) := hkeep ▸ h.order.filter _
  refine ⟨gs₁ ++ gs₂, ?_, ?_, ?_, ?_, ?_, ?_, ?_, horder, ?_, ?_⟩
  · rw [hv]
    exact h.space.sublist List.filter_sublist
  · rw [hv]
    exact fun v hmem => h.listed v (List.mem_filter.mp hmem).1
  · have hsorted : StrictlySorted (gs₁ ++ block m :: gs₂).flatten := by
      rw [h.flat]
      exact (h.space.sublist List.filter_sublist).strictlySorted
    rw [← flatten_without hsorted, h.flat, hv, List.filter_filter, List.filter_filter]
    simp only [Bool.and_comm]
  · rw [← h.old, List.filter_append, List.filter_append, List.filter_cons_of_neg (by simp [hm])]
  · rw [List.filter_append, h₁, h₂, List.map_append]
  · exact fun a ha => h.mapped a (hsub.subset ha)
  · rw [← hkeep]
    exact h.perm.filter _
  · exact h.bids.sublist hsub
  · intro f hf
    rw [hb f hf, horder.top]

/-! ## Putting a patch in -/

/-- A patch with mappings behind a gap has no function in common with another one
when such a patch would have to be in front of the gap. -/
theorem Stacked.not_covers_behind (h : Stacked w₀ target F U w gs as ms) {a : DlMap} (ha : a ∈ as)
    {back : List Vma} {gs₂ : List (List Vma)} {p : Vma → Bool}
    (hgs₂ : gs₂.flatten = back.filter isDlVma) (hmem : block a ∈ gs₂)
    (hback : ∀ u ∈ back, p u = false)
    (habove : ∀ f, covers a f = true → covers m f = true → ∀ u ∈ block a, p u = true) :
    ∀ f, ¬ (covers a f = true ∧ covers m f = true) := by
  rintro f ⟨haf, hmf⟩
  obtain ⟨u, hu⟩ := List.exists_mem_of_ne_nil (block a) fun hnil =>
    (h.mapped a ha).nonempty (List.map_eq_nil_iff.mp hnil)
  have hback' : u ∈ back.filter isDlVma := hgs₂ ▸ List.mem_flatten.mpr ⟨_, hmem, hu⟩
  have htrue := habove f haf hmf u hu
  rw [hback u (List.mem_filter.mp hback').1] at htrue
  cases htrue

/-- With the mappings of a patch in a gap that is in no object, the process is one
with this patch on top, if the patches behind the gap have no function in common
with it. -/
theorem Stacked.insert (h : Stacked w₀ target F U w gs as ms) {front back : List Vma}
    {p : Vma → Bool} (hsplit : w.vmas = front ++ back) (hv : w'.vmas = front ++ block m ++ back)
    (space : AddressSpace (front ++ m.vmas ++ back)) (hfront : ∀ u ∈ front, p u = true)
    (hback : ∀ u ∈ back, p u = false)
    (hcut : ∀ g ∈ gs, (∀ u ∈ g, p u = true) ∨ (∀ u ∈ g, p u = false))
    (habove : ∀ a ∈ as, ∀ f, covers a f = true → covers m f = true → ∀ u ∈ block a, p u = true)
    (hm : MappedFrom U (dlmLoadBase target) m) (hpatch : isPatchGroup (block m) = true)
    (hbid : ∀ a ∈ as, patchBidOf a.ei ≠ patchBidOf m.ei)
    (hb : ∀ f ∈ F, w'.mem.read (dlmLoadBase target + f) 8 =
      entryBytes w₀ (dlmLoadBase target) f (Layers.top covers f (ms ++ [m]))) :
    ∃ gs' as', Stacked w₀ target F U w' gs' as' (ms ++ [m]) := by
  have hflat := h.flat
  rw [hsplit, List.filter_append] at hflat
  obtain ⟨gs₁, gs₂, rfl, hgs₁, hgs₂⟩ := Groups.flatten_split hflat
    (fun u hu => hfront u (List.mem_filter.mp hu).1) (fun u hu => hback u (List.mem_filter.mp hu).1)
    hcut
  have hpatches := h.patches
  rw [List.filter_append] at hpatches
  obtain ⟨as₁, as₂, rfl, h₁, h₂⟩ := List.map_eq_append_iff.mp hpatches.symm
  have hdisjoint : ∀ a ∈ as₂, ∀ f, ¬ (covers a f = true ∧ covers m f = true) := by
    intro a ha
    have hfil : block a ∈ gs₂.filter isPatchGroup := h₂ ▸ List.mem_map_of_mem ha
    exact h.not_covers_behind (List.mem_append_right _ ha) hgs₂ (List.mem_filter.mp hfil).1 hback
      (habove a (List.mem_append_right _ ha))
  refine ⟨gs₁ ++ block m :: gs₂, as₁ ++ m :: as₂, ?_, ?_, ?_, ?_, ?_, ?_, ?_, ?_, ?_, hb⟩
  · rw [hv]
    refine space.congr ?_
    rw [List.map_append, List.map_append, List.map_append, List.map_append, block_range]
  · rw [hv]
    intro v hmem
    rcases List.mem_append.mp hmem with hmem | hmem
    · rcases List.mem_append.mp hmem with hmem | hmem
      · exact h.listed v (hsplit ▸ List.mem_append_left _ hmem)
      · obtain ⟨u, -, rfl⟩ := List.mem_map.mp hmem
        rfl
    · exact h.listed v (hsplit ▸ List.mem_append_right _ hmem)
  · have hblock : (block m).filter isDlVma = block m :=
      List.filter_eq_self.mpr fun _ hu => block_isDlVma hu
    rw [hv, List.filter_append, List.filter_append, hblock, List.flatten_append, List.flatten_cons,
      hgs₁, hgs₂, List.append_assoc]
  · rw [← h.old, List.filter_append, List.filter_append, List.filter_cons_of_neg (by simp [hpatch])]
  · rw [List.filter_append, List.filter_cons_of_pos hpatch, ← h₁, ← h₂, List.map_append,
      List.map_cons]
  · intro a ha
    rcases List.mem_append.mp ha with ha | ha
    · exact h.mapped a (List.mem_append_left _ ha)
    · rcases List.mem_cons.mp ha with rfl | ha
      · exact hm
      · exact h.mapped a (List.mem_append_right _ ha)
  · refine List.perm_middle.trans ((h.perm.cons m).trans ?_)
    exact (List.perm_append_singleton m ms).symm
  · exact h.order.insert hdisjoint
  · obtain ⟨hb₁, hb₂, hcross⟩ := List.pairwise_append.mp h.bids
    refine List.pairwise_append.mpr
      ⟨hb₁, List.pairwise_cons.mpr ⟨fun a ha => ?_, hb₂⟩, fun a ha => ?_⟩
    · exact (hbid a (List.mem_append_right _ ha)).symm
    · refine List.forall_mem_cons.mpr ⟨hbid a (List.mem_append_left _ ha), hcross a ha⟩

/-! ## Reverting -/

variable {t : DlMap} {p : Patch}

theorem IsPatch.findFunctionJump_eq (h : IsPatch target t p m) (f : BitVec 64) :
    findFunctionJump p.pi (dlmLoadBase target + f) = (jumpFor m.ei f).map (tunedJump target m) := by
  rw [findFunctionJump, h.jumps, List.find?_map, jumpFor]
  refine congrArg (fun q => Option.map (tunedJump target m) ((jumpsOf m.ei).find? q)) ?_
  funext fj
  rw [Bool.eq_iff_iff, Function.comp_apply, beq_iff_eq, beq_iff_eq]
  exact add_right_inj _

/-- `find_previous_func_jump` finds the jump of the last patch in front. -/
theorem findPreviousFuncJump_top {l₁ l₂ : List Patch}
    (hids : (l₁ ++ p :: l₂).Pairwise fun q q' => q.patchDlm.id ≠ q'.patchDlm.id)
    (hl : List.Forall₂ (IsPatch target t) l₁ as₁) (hp : IsPatch target t p m) {f : BitVec 64}
    {fj : FuncJump} (hfj : fj.funcAddr = dlmLoadBase target + f) :
    findPreviousFuncJump (l₁ ++ p :: l₂) p fj = (Layers.top covers f as₁).bind fun m' =>
      (jumpFor m'.ei f).map (tunedJump target m') := by
  have hmap : (l₁.map fun pp => if pp.targetDlm.map DlMap.id = p.targetDlm.map DlMap.id then
      findFunctionJump pp.pi fj.funcAddr else none) =
      as₁.map fun m' => (jumpFor m'.ei f).map (tunedJump target m') := by
    refine Groups.map_eq_of_forall₂ hl fun pp m' hpm => ?_
    rw [hpm.found, hp.found, if_pos rfl, hfj, hpm.findFunctionJump_eq]
  have hback := congrArg (fun l => l.reverse.findSome? id) hmap
  simp only [← List.map_reverse, List.findSome?_map, Function.id_comp] at hback
  rw [findPreviousFuncJump, patchesBefore_eq hids, hback]
  refine Layers.findSome?_reverse fun m' _ => ?_
  rw [Option.isSome_map]
  exact jumpFor_isSome m'.ei f

variable (hs : Setting w₀ bid target F U)
include hs

/-- What is written back is what the function holds without the patch, if the
patch is the last one that covers it. -/
theorem restoredCode_top {l₁ l₂ : List Patch}
    (hids : (l₁ ++ p :: l₂).Pairwise fun q q' => q.patchDlm.id ≠ q'.patchDlm.id)
    (hl : List.Forall₂ (IsPatch target t) l₁ as₁) (hp : IsPatch target t p m)
    (hm : MappedFrom U (dlmLoadBase target) m) {f : BitVec 64} {fj : FuncJump}
    (hfj : jumpFor m.ei f = some fj) :
    restoredCode (l₁ ++ p :: l₂) p (tunedJump target m fj) =
      entryBytes w₀ (dlmLoadBase target) f (Layers.top covers f as₁) := by
  obtain ⟨hmem, rfl⟩ := jumpFor_spec hfj
  have hprev : findPreviousFuncJump (l₁ ++ p :: l₂) p (tunedJump target m fj) = _ :=
    findPreviousFuncJump_top hids hl hp rfl
  rw [restoredCode, hprev]
  cases htop : Layers.top covers fj.funcValue as₁ with
  | none =>
      obtain ⟨inv, -, -, hei, hpatch⟩ := hm.patchOf hs
      exact (hpatch.code fj (hei ▸ hmem)).2
  | some m' =>
      obtain ⟨fj', hfj'⟩ := jumpFor_of_covers (Layers.mem_of_top htop).2
      simp only [Option.bind_some, hfj', Option.map_some, entryBytes, tunedJump]
      rw [(jumpFor_spec hfj').2]

/-- The replacements in different patches are different. -/
theorem Stacked.dest_ne (h : Stacked w₀ target F U w gs (as₁ ++ m :: as₂) ms) {a : DlMap}
    (ha : a ∈ as₂) {fj fj' : FuncJump} (hfj : fj ∈ jumpsOf m.ei) (hfj' : fj' ∈ jumpsOf a.ei) :
    destOf m fj ≠ destOf a fj' := by
  have hspans : ∀ {x : DlMap} {fx : FuncJump}, x ∈ as₁ ++ m :: as₂ → fx ∈ jumpsOf x.ei →
      Spans (block x) (destOf x fx) 1 := by
    intro x fx hx hfx
    obtain ⟨inv, -, -, hei, hpatch⟩ := (h.mapped x hx).patchOf hs
    obtain ⟨b, hpin⟩ := (h.mapped x hx).pinned
    have hfile := hpatch.file
    have hdyn := hpatch.dyn
    have himg := hpatch.replacements fx (hei ▸ hfx)
    rw [← hei] at hfile hdyn himg
    obtain ⟨v, hv, h1, h2⟩ := hpin.spans hfile hdyn himg
    exact ⟨fileVma x.path x.ei v, List.mem_map_of_mem hv, h1, h2⟩
  have hbelow : ((as₁ ++ m :: as₂).map block).Pairwise fun x y => ∀ u ∈ x, ∀ v ∈ y, u.Below v := by
    rw [← h.patches]
    refine List.Pairwise.sublist List.filter_sublist (List.pairwise_flatten.mp ?_).2
    rw [h.flat]
    exact (h.space.sublist List.filter_sublist).below
  rw [List.pairwise_map] at hbelow
  have hma := List.rel_of_pairwise_cons (List.pairwise_append.mp hbelow).2.1 ha
  obtain ⟨u, hu, hu1, hu2⟩ := hspans (by simp) hfj
  obtain ⟨v, hv, hv1, hv2⟩ := hspans (by simp [ha]) hfj'
  have huv := hma u hu v hv
  rw [Vma.Below] at huv
  intro heq
  rw [heq] at hu2
  omega

/-- The tuned jumps of a patch are for functions that are not at address zero and
do not overlap. -/
theorem MappedFrom.tuned (hm : MappedFrom U (dlmLoadBase target) m) :
    (∀ fj ∈ jumpsOf m.ei, fj.funcValue ∈ F) ∧
    (∀ fj ∈ jumpsOf m.ei, (tunedJump target m fj).funcAddr ≠ 0) ∧
    ((jumpsOf m.ei).map (tunedJump target m)).Pairwise EntriesApart := by
  obtain ⟨inv, -, -, hei, hpatch⟩ := hm.patchOf hs
  have hfuncs : ∀ fj ∈ jumpsOf m.ei, fj.funcValue ∈ F := fun fj hfj => hpatch.funcs fj (hei ▸ hfj)
  refine ⟨hfuncs, fun fj hfj h0 => ?_, ?_⟩
  · have hpage := hs.pageZero _ (hfuncs fj hfj)
    have haddr : dlmLoadBase target + fj.funcValue = 0 := h0
    rw [haddr] at hpage
    exact absurd hpage (by decide)
  · refine List.pairwise_map.mpr (List.Pairwise.imp_of_mem ?_ (hei ▸ hpatch.distinct))
    intro a b ha hb hne _ _
    exact hs.apart _ (hfuncs a ha) _ (hfuncs b hb) hne

/-- A jump of a patch is in place exactly when no later patch has the function. -/
theorem Stacked.inPlace_cases (h : Stacked w₀ target F U w gs (as₁ ++ m :: as₂) ms) {fj : FuncJump}
    (hfj : jumpFor m.ei fj.funcValue = some fj) :
    (inPlace w.mem (tunedJump target m fj) = true ∧
      Layers.top covers fj.funcValue (as₁ ++ as₂) = Layers.top covers fj.funcValue as₁) ∨
    (inPlace w.mem (tunedJump target m fj) = false ∧
      w.mem.read (dlmLoadBase target + fj.funcValue) 8 =
      entryBytes w₀ (dlmLoadBase target) fj.funcValue
        (Layers.top covers fj.funcValue (as₁ ++ as₂))) := by
  have hm := h.mapped m (by simp)
  obtain ⟨hmem, -⟩ := jumpFor_spec hfj
  obtain ⟨hfuncs, hzero, -⟩ := hm.tuned hs
  have haddr : (tunedJump target m fj).funcAddr = dlmLoadBase target + fj.funcValue := rfl
  have hbytes := h.bytes _ (hfuncs fj hmem)
  rw [← h.order.top] at hbytes
  rcases @Layers.top_remove _ _ covers fj.funcValue as₁ as₂ m (covers_of_jumpFor hfj) with
    ⟨htop, hrest⟩ | ⟨a, ha, htop, hrest⟩
  · rw [htop] at hbytes
    simp only [entryBytes, hfj] at hbytes
    exact .inl ⟨inPlace_iff.mpr ⟨hzero fj hmem, hbytes⟩, hrest⟩
  · -- the later patch has another replacement, so its jump is a different one
    obtain ⟨fj', hfj'⟩ := jumpFor_of_covers (Layers.mem_of_top htop).2
    obtain ⟨hmem', hval⟩ := jumpFor_spec hfj'
    rw [htop] at hbytes
    refine .inr ⟨?_, by rw [hbytes, hrest]⟩
    rw [← Bool.not_eq_true]
    intro hin
    have heq := (inPlace_iff.mp hin).2
    rw [haddr, hbytes] at heq
    simp only [entryBytes, hfj'] at heq
    have henc' := (h.mapped a (by simp [ha])).encodable fj' hmem'
    rw [hval] at henc'
    exact h.dest_ne hs ha hmem hmem' (jumpBytes_inj (hm.encodable fj hmem) henc' heq.symm)

/-- The functions after the jumps of a patch are reverted: they are as if it had
not been applied. -/
theorem Stacked.revert_bytes (h : Stacked w₀ target F U w gs (as₁ ++ m :: as₂) ms) {ctx : Ctx}
    (hdry : ctx.dryRun = false) {l₁ l₂ : List Patch} (happ : ctx.appliedPatches = l₁ ++ p :: l₂)
    (hids : (l₁ ++ p :: l₂).Pairwise fun q q' => q.patchDlm.id ≠ q'.patchDlm.id)
    (hl : List.Forall₂ (IsPatch target t) l₁ as₁) (hp : IsPatch target t p m) :
    (Loop.each (revertFuncJump {} ctx p) p.pi.funcJumps w).1.vmas = w.vmas ∧
    ∀ f ∈ F, (Loop.each (revertFuncJump {} ctx p) p.pi.funcJumps w).1.mem.read
      (dlmLoadBase target + f) 8 =
        entryBytes w₀ (dlmLoadBase target) f (Layers.top covers f (as₁ ++ as₂)) := by
  have hm := h.mapped m (by simp)
  obtain ⟨hfuncs, hzero, hapart⟩ := hm.tuned hs
  obtain ⟨hvmas, hread⟩ := @each_revert_ok {} ctx p hdry (fun _ => rfl) (fun _ => rfl)
    ((jumpsOf m.ei).map (tunedJump target m)) w hapart
  rw [hp.jumps]
  refine ⟨hvmas, fun f hf => ?_⟩
  cases hfj : jumpFor m.ei f with
  | none =>
      have hbytes := h.bytes f hf
      rw [← h.order.top, Layers.top_remove_of_not (not_covers_of_jumpFor hfj)] at hbytes
      rw [each_revert_frame hdry, hbytes]
      refine List.forall_mem_map.mpr fun a ha _ => ?_
      exact hs.apart _ (hfuncs a ha) f hf (jumpFor_none hfj ha)
  | some fj =>
      obtain ⟨hmem, rfl⟩ := jumpFor_spec hfj
      have hat := hread _ (List.mem_map_of_mem hmem) (hzero fj hmem)
      have haddr : (tunedJump target m fj).funcAddr = dlmLoadBase target + fj.funcValue := rfl
      rw [haddr] at hat
      rw [hat]
      rcases h.inPlace_cases hs hfj with ⟨hplace, htop⟩ | ⟨hplace, hbytes⟩
      · rw [hplace, if_pos rfl, happ, restoredCode_top hs hids hl hp hm hfj, htop]
      · rw [hplace, if_neg Bool.false_ne_true, hbytes]

/-! ## `unpatch_process` -/

omit hs in
/-- A group is a part of the memory map. -/
theorem Stacked.mem_vmas (h : Stacked w₀ target F U w gs as ms) {g : List Vma} (hg : g ∈ gs) :
    g.Sublist w.vmas := by
  have hsub := List.sublist_flatten_of_mem hg
  rw [h.flat] at hsub
  exact hsub.trans List.filter_sublist

/-- A run of `unpatch_process` takes out the patch with the build ID. -/
theorem Stacked.unpatch (h : Stacked w₀ target F U w gs as ms) {inv : Invocation}
    (space : AddressSpace (inv.maps w)) (hdry : inv.dryRun = false)
    (hrun : unpatchProcess {} inv w = (w', 0)) :
    ∃ gs' as', Stacked w₀ target F U w' gs' as'
      (ms.filter fun x => patchBidOf x.ei != patchBidOf inv.patchEi) := by
  rw [unpatchProcess] at hrun
  cases hctx : unpatchContext {} inv w with
  | error err =>
      rw [hctx] at hrun
      exact absurd (congrArg Prod.snd hrun) (unpatchContext_error hctx)
  | ok r =>
      obtain ⟨ctx, p⟩ := r
      rw [hctx] at hrun
      have hready := unpatchContext_ok hctx
      have hfound := processCollectVmas_found space h.listed hready.found
      obtain ⟨t, ht, heq⟩ := h.target_eq hs hfound
      have hall := h.isPatch hs hfound ht heq
      obtain ⟨pi, hinfo, hfind⟩ := hready.info
      obtain ⟨hbid, l₁, l₂, happ, -⟩ := List.find?_eq_some_iff_append.mp hfind
      have hids := hfound.ids
      rw [happ] at hall hids
      obtain ⟨as₁, m, as₂, rfl, hl, hp⟩ := Groups.forall₂_split hall
      have hm : patchBidOf m.ei = patchBidOf inv.patchEi := by
        rw [← hp.bid, (elfInfoBinpatch_ok hinfo).1, beq_iff_eq.mp hbid]
      have hdry' : ctx.dryRun = false := hready.dryRun.trans hdry
      obtain ⟨hvmas, hbytes⟩ := h.revert_bytes hs hdry' happ hids hl hp
      have hunload : patchUnload {} ctx p (Loop.each (revertFuncJump {} ctx p) p.pi.funcJumps w).1 =
          (w', 0) := by
        rw [← hrun]
        show _ = revertDynBinpatch {} ctx p w
        rw [revertDynBinpatch, if_pos (by rw [hp.found]; rfl)]
        exact (if_neg fun hne => hne rfl).symm
      have hret : (processMunmapDlMap {} ctx p.patchDlm
          (Loop.each (revertFuncJump {} ctx p) p.pi.funcJumps w).1).2 = 0 :=
        congrArg Prod.snd hunload
      obtain ⟨hmem, hcut⟩ := processMunmapDlMap_ok (fun _ => rfl) hdry' hret
      have hw' : (processMunmapDlMap {} ctx p.patchDlm
          (Loop.each (revertFuncJump {} ctx p) p.pi.funcJumps w).1).1 = w' :=
        congrArg Prod.fst hunload
      rw [hw'] at hmem hcut
      have hblock := h.mem_vmas (h.block_mem (by simp : m ∈ as₁ ++ m :: as₂)).1
      rw [World.unmapAll_filter (by rw [hvmas]; exact h.space), hvmas, hp.vmas] at hcut
      · obtain ⟨gs', hstacked⟩ := h.remove hcut fun f hf => by rw [hmem]; exact hbytes f hf
        rw [hm] at hstacked
        exact ⟨gs', as₁ ++ as₂, hstacked⟩
      · intro v hv
        rw [hvmas]
        exact ⟨v, hblock.subset (hp.vmas ▸ hv), rfl⟩
      · rw [hp.vmas]
        exact (h.space.sublist hblock).strictlySorted


/-! ## `patch_process` -/

/-- Two patches have a function in common. -/
def shareFunc (ei ei' : ElfInfo) : Bool := (jumpsOf ei).any fun fj => coversFunc ei' fj.funcValue

omit hs in
theorem shareFunc_of_covers {ei ei' : ElfInfo} {f : BitVec 64} (h : coversFunc ei f = true)
    (h' : coversFunc ei' f = true) : shareFunc ei ei' = true := by
  obtain ⟨fj, hmem, hfj⟩ := List.any_eq_true.mp h
  rw [beq_iff_eq] at hfj
  exact List.any_eq_true.mpr ⟨fj, hmem, by rw [hfj]; exact h'⟩

/-- The first mapping that `find_hole` accepts is in no object that goes on behind
it, and it is behind every applied patch that has a function in common with the
new one. -/
def InOrder (ctx : Ctx) : Prop :=
  ∀ v ∈ placeVma ctx (createElfMmaps (patchObject ctx)).1,
    (∀ d ∈ ctx.dlMaps, (∀ u ∈ d.vmas, u.addr ≤ v.addr) ∨ (∀ u ∈ d.vmas, v.addr < u.addr)) ∧
    (∀ p ∈ ctx.appliedPatches, shareFunc p.patchDlm.ei ctx.patchEi = true →
      ∀ u ∈ p.patchDlm.vmas, u.addr ≤ v.addr)

omit hs in
instance (ctx : Ctx) : Decidable (InOrder ctx) :=
  inferInstanceAs (Decidable (∀ v ∈ placeVma ctx (createElfMmaps (patchObject ctx)).1, _ ∧ _))

section

variable {ctx : Ctx} {relas : List ExternSymbol × List ExternSymbol} {inv : Invocation}
  (h : Stacked w₀ target F U w gs as ms) (hinv : inv ∈ U) (hready : PatchReady {} inv w ctx relas)
  (hfound : ∃ vmas, Found {} w vmas ctx.dlMaps ctx.appliedPatches ∧ vmas.Sublist ctx.vmas)
  (space : AddressSpace ctx.vmas)
include h hinv hready hfound

/-- The target that the run finds is the one that was there at the start. -/
theorem Stacked.target_found :
    ctx.targetDlm = { target with id := ctx.targetDlm.id } ∧
      List.Forall₂ (IsPatch target ctx.targetDlm) ctx.appliedPatches as := by
  obtain ⟨vmas, hf, -⟩ := hfound
  obtain ⟨pi, hinfo, hbid, -⟩ := (hs.patches inv hinv).info
  obtain ⟨-, -, pi₀, hinfo₀, htarget, -⟩ := elfInfoBinpatch_ok hready.info
  cases hinfo.symm.trans hinfo₀
  have hfind := hready.target
  rw [htarget, hbid] at hfind
  obtain ⟨t, ht, heq⟩ := h.target_eq hs hf
  cases hfind.symm.trans ht
  exact ⟨heq, h.isPatch hs hf ht heq⟩

/-- Where the run finds the function of a jump. -/
theorem Stacked.entry_found (fj : FuncJump) :
    entryOf ctx (zeroedJump fj) = dlmLoadBase target + fj.funcValue := by
  have hbase : dlmLoadBase ctx.targetDlm = dlmLoadBase target := by
    rw [(h.target_found hs hinv hready hfound).1]
    rfl
  rw [entryOf, hbase]
  rfl

/-- The functions are mapped, and nsb knows of it. -/
theorem Stacked.func_inside {f : BitVec 64} (hf : f ∈ F) :
    Inside ctx.vmas (dlmLoadBase target + f) := by
  have heq := (h.target_found hs hinv hready hfound).1
  obtain ⟨vmas, hfound, hsub⟩ := hfound
  have hmem : target.vmas ∈ gs := by
    rw [← h.groups_eq hs, ← hfound.groups]
    have htarget : ctx.targetDlm ∈ ctx.dlMaps := List.mem_of_find?_eq_some hready.target
    have hvmas : ctx.targetDlm.vmas = target.vmas := by rw [heq]
    exact hvmas ▸ List.mem_map_of_mem htarget
  refine (hs.inside f hf).mono ?_
  exact ((((h.mem_vmas hmem).map _).trans hfound.known).trans (hsub.map _)).subset

include space

/-- The patch can be applied. -/
theorem Stacked.applicable : Applicable {} ctx relas w := by
  have hpatch := hs.patches inv hinv
  obtain ⟨pi, hinfo, -, hrefs⟩ := hpatch.info
  obtain ⟨-, hjumps, pi₀, hinfo₀, -, hsyms⟩ := elfInfoBinpatch_ok hready.info
  cases hinfo.symm.trans hinfo₀
  have hentry := h.entry_found hs hinv hready hfound
  have hinside : ∀ {f : BitVec 64}, f ∈ F → Inside ctx.vmas (dlmLoadBase target + f) :=
    fun hf => h.func_inside hs hinv hready hfound hf
  obtain ⟨vmas, hf, hsub⟩ := hfound
  have htarget : AddressSpace ctx.targetDlm.vmas := by
    have hmem : ctx.targetDlm.vmas ∈ gs := by
      rw [← h.groups_eq hs, ← hf.groups]
      exact List.mem_map_of_mem (List.mem_of_find?_eq_some hready.target)
    exact h.space.sublist (h.mem_vmas hmem)
  have hfile : PatchFile ctx.patchEi := hready.patchEi ▸ hpatch.file
  have hpinned : ∀ pdlm, Loads {} ctx w pdlm → ∃ a, PinnedAt inv.patchEi a pdlm := by
    rintro pdlm ⟨⟨dlm₁, hcreate, hpin⟩, -⟩
    obtain ⟨a, -, -, -, hat, -⟩ := pinElfMmaps_placed space htarget hfile hcreate hpin
    exact ⟨a, hready.patchEi ▸ hat⟩
  refine ⟨fun _ => rfl, space, htarget, hf.known.trans (hsub.map _), hfile, ?_, ?_, ?_, ?_, ?_, ?_⟩
  · rw [hjumps]
    exact List.forall_mem_map.mpr fun _ _ => rfl
  · rw [hjumps]
    refine List.forall_mem_map.mpr fun fj hfj => ?_
    rw [hentry]
    exact hinside (hpatch.funcs fj hfj)
  · rw [hjumps]
    refine List.forall_mem_map.mpr fun fj hfj => ?_
    rw [hentry]
    exact hs.pageZero _ (hpatch.funcs fj hfj)
  · rw [hjumps]
    refine List.pairwise_map.mpr (hpatch.distinct.imp_of_mem fun {a b} ha hb hne => ?_)
    rw [hentry, hentry]
    exact hs.apart _ (hpatch.funcs a ha) _ (hpatch.funcs b hb) hne
  · intro pdlm hl es hes
    obtain ⟨a, hat⟩ := hpinned pdlm hl
    have hrela := resolveRelocations_rela hready.relas hes
    rw [hready.patchEi] at hrela
    exact hat.spans hpatch.file hpatch.dyn (hpatch.slots _ hrela)
  · intro pdlm hl ss hss
    obtain ⟨a, hat⟩ := hpinned pdlm hl
    rw [hsyms] at hss
    exact hat.spans hpatch.file hpatch.dyn (hrefs ss hss)

/-- A patch that gets loaded is mapped behind the first mapping that `find_hole`
accepts, and its jumps can be encoded. -/
theorem Stacked.loaded {pdlm : DlMap} (hl : Loads {} ctx w pdlm) :
    MappedFrom U (dlmLoadBase target) pdlm ∧ pdlm.path = some inv.patchfile ∧
      pdlm.ei = inv.patchEi ∧
      ∃ v front back, placeVma ctx (createElfMmaps (patchObject ctx)).1 = some v ∧
        Placed w.vmas pdlm front back ∧ (∀ u ∈ front, u.addr ≤ v.addr) ∧
        (∀ u ∈ back, v.addr < u.addr) := by
  have happ := h.applicable hs hinv hready hfound space
  have hpatch := hs.patches inv hinv
  have hpath := hl.path
  rw [hready.patchfile] at hpath
  obtain ⟨⟨dlm₁, hcreate, hpin⟩, -⟩ := hl
  obtain ⟨a, front, back, -, hat, hplaced, ⟨init, v, rfl, hv⟩, hlo, hhi⟩ :=
    pinElfMmaps_placed happ.space happ.target happ.file hcreate hpin
  obtain ⟨-, hvmas, hne, -⟩ := happ.file.created hcreate
  obtain ⟨hsize, hfits⟩ := happ.file.loadSize_toNat hvmas hne
  rw [hready.patchEi] at hat hfits
  refine ⟨⟨⟨inv, hinv, hpath, hat.ei_eq⟩, ⟨a, hat.ei_eq ▸ hat⟩, ?_⟩, hpath, hat.ei_eq, v, ?_⟩
  · intro fj hfj
    rw [hat.ei_eq] at hfj
    obtain ⟨s, hseg, hs₁, hs₂⟩ := hat.image hpatch.file hpatch.dyn (hpatch.replacements fj hfj)
    have hend := hfits s hseg
    have hinside : Inside ctx.targetDlm.vmas (dlmLoadBase target + fj.funcValue) := by
      rw [(h.target_found hs hinv hready hfound).1]
      exact hs.inside _ (hpatch.funcs fj hfj)
    refine encodable_of_range happ.target hinside hat.low hsize ?_ ?_ hlo hhi
    · rw [destOf]
      omega
    · rw [destOf]
      omega
  · obtain ⟨front', back', hcut⟩ := hplaced.cut happ.known
    rw [hcreate]
    exact ⟨front', back', hv, hcut⟩

/-- The functions after the jumps of a new patch are written: the patch counts
where it has a jump. -/
theorem Stacked.jump_bytes {pdlm : DlMap} {w₃ : World} (hl : Loads {} ctx w pdlm)
    (hdry : ctx.dryRun = false) (hsame : Unchanged ctx.vmas w w₃) {f : BitVec 64} (hf : f ∈ F) :
    (applyFuncJumps {} ctx (tuneFuncJumps {} ctx pdlm 0).1 w₃).1.mem.read
        (dlmLoadBase target + f) 8 =
      entryBytes w₀ (dlmLoadBase target) f (Layers.top covers f (ms ++ [pdlm])) := by
  have happ := h.applicable hs hinv hready hfound space
  obtain ⟨hmapped, -, hei, -⟩ := h.loaded hs hinv hready hfound space hl
  have hpatch := hs.patches inv hinv
  have hentry := h.entry_found hs hinv hready hfound
  have hinside := h.func_inside hs hinv hready hfound hf
  obtain ⟨-, hjumps, -⟩ := elfInfoBinpatch_ok hready.info
  rw [Layers.top_concat]
  cases hfj : jumpFor pdlm.ei f with
  | none =>
      obtain ⟨v, hv, hv₁, hv₂⟩ := hinside
      have hzero : Apart 0 8 (dlmLoadBase target + f) 8 := by
        have htop := space.top v hv
        exact Apart.of_le (by simpa using hs.pageZero f hf) (by decide) (by omega)
      rw [not_covers_of_jumpFor hfj, (applyFuncJumps_frame hdry happ.fresh w₃).2 _ hzero,
        hsame _ ⟨v, hv, hv₁, hv₂⟩]
      · exact h.bytes f hf
      · rw [hjumps]
        refine List.forall_mem_map.mpr fun a ha => ?_
        rw [hentry]
        exact hs.apart _ (hpatch.funcs a ha) f hf (jumpFor_none hfj (hei ▸ ha))
  | some fj =>
      obtain ⟨hmem, rfl⟩ := jumpFor_spec hfj
      obtain ⟨l₁, l₂, hsplit⟩ := List.append_of_mem (hei ▸ hmem)
      have hsplit' : ctx.pi.funcJumps =
          l₁.map zeroedJump ++ zeroedJump fj :: l₂.map zeroedJump := by
        rw [hjumps, hsplit, List.map_append, List.map_cons]
      have henc := hmapped.encodable fj hmem
      have htune : Written {} ctx pdlm w₃.nwrite (l₁.map zeroedJump) := by
        refine ⟨hdry, ⟨List.forall_mem_map.mpr fun a ha => ?_, fun _ _ => rfl⟩, fun _ _ => rfl⟩
        have ha' : a ∈ jumpsOf inv.patchEi := by
          rw [hsplit]
          exact List.mem_append_left _ ha
        rw [(h.target_found hs hinv hready hfound).1]
        exact ⟨hmapped.encodable a (hei ▸ ha'), (hpatch.code a ha').1⟩
      have hread := (happ.jump_read hsplit').1 htune
      rw [hentry, if_pos (by exact henc)] at hread
      rw [hread, covers_of_jumpFor hfj, if_pos rfl]
      simp only [entryBytes, hfj]
      rfl

end

omit hs in
/-- No applied patch has the build ID of a new one. -/
theorem PatchReady.fresh_bid {ctx : Ctx} {relas : List ExternSymbol × List ExternSymbol}
    {inv : Invocation} (hready : PatchReady {} inv w ctx relas)
    (hall : List.Forall₂ (IsPatch target t) ctx.appliedPatches as) {a : DlMap} (ha : a ∈ as) :
    patchBidOf a.ei ≠ patchBidOf inv.patchEi := by
  obtain ⟨p, hp, hpa⟩ := Groups.exists_of_forall₂ hall ha
  rw [← hpa.bid, (elfInfoBinpatch_ok hready.info).1]
  intro heq
  exact List.find?_eq_none.mp hready.fresh p hp (by simpa using heq)

/-- No group is on both sides of the mapping in front of the gap. -/
theorem Stacked.cut_groups (h : Stacked w₀ target F U w gs as ms) {vmas : List Vma}
    {dlMaps : List DlMap} {applied : List Patch} (hfound : Found {} w vmas dlMaps applied) {v : Vma}
    (hcut : ∀ d ∈ dlMaps, (∀ u ∈ d.vmas, u.addr ≤ v.addr) ∨ (∀ u ∈ d.vmas, v.addr < u.addr)) :
    ∀ g ∈ gs, (∀ u ∈ g, decide (u.addr ≤ v.addr) = true) ∨
      (∀ u ∈ g, decide (u.addr ≤ v.addr) = false) := by
  intro g hg
  rw [← h.groups_eq hs, ← hfound.groups] at hg
  obtain ⟨d, hd, rfl⟩ := List.mem_map.mp hg
  rcases hcut d hd with hle | hlt
  · exact .inl fun u hu => decide_eq_true (hle u hu)
  · exact .inr fun u hu => decide_eq_false (BitVec.not_le.mpr (hlt u hu))

omit hs in
/-- An applied patch that shares a function with the new one is in front of the
gap. -/
theorem above_of_covers {applied : List Patch} {as : List DlMap} {patchEi : ElfInfo} {v : Vma}
    (hall : List.Forall₂ (IsPatch target t) applied as) (hei : m.ei = patchEi)
    (habove : ∀ p ∈ applied, shareFunc p.patchDlm.ei patchEi = true →
      ∀ u ∈ p.patchDlm.vmas, u.addr ≤ v.addr) :
    ∀ a ∈ as, ∀ f, covers a f = true → covers m f = true →
      ∀ u ∈ block a, decide (u.addr ≤ v.addr) = true := by
  intro a ha f haf hmf u hu
  obtain ⟨p, hp, hpa⟩ := Groups.exists_of_forall₂ hall ha
  rw [covers, hei] at hmf
  rw [covers, ← hpa.ei] at haf
  exact decide_eq_true (habove p hp (shareFunc_of_covers haf hmf) u (hpa.vmas ▸ hu))

/-- A run of `patch_process` puts the new patch on top. -/
theorem Stacked.patch (h : Stacked w₀ target F U w gs as ms) {inv : Invocation} (hinv : inv ∈ U)
    (space : AddressSpace (inv.maps w))
    (hguard : ∀ ctx relas, patchContext {} inv w = .ok (ctx, relas) →
      AddressSpace ctx.vmas ∧ InOrder ctx)
    (hdry : inv.dryRun = false) (hrun : patchProcess {} inv w = (w', 0)) :
    ∃ gs' as' m, Stacked w₀ target F U w' gs' as' (ms ++ [m]) ∧ m.path = some inv.patchfile ∧
      m.ei = inv.patchEi := by
  rw [patchProcess] at hrun
  cases hctx : patchContext {} inv w with
  | error err =>
      rw [hctx] at hrun
      exact absurd (congrArg Prod.snd hrun) (patchContext_error hctx)
  | ok r =>
      obtain ⟨ctx, relas⟩ := r
      rw [hctx] at hrun
      have hready := patchContext_ok hctx
      obtain ⟨hspace, horder⟩ := hguard ctx relas hctx
      have hfound : ∃ vmas, Found {} w vmas ctx.dlMaps ctx.appliedPatches ∧
          vmas.Sublist ctx.vmas := by
        obtain ⟨vmas, hcollect, hsub⟩ := hready.found
        exact ⟨vmas, processCollectVmas_found space h.listed hcollect, hsub⟩
      have happ := h.applicable hs hinv hready hfound hspace
      have hall := (h.target_found hs hinv hready hfound).2
      have hdry' : ctx.dryRun = false := hready.dryRun.trans hdry
      rcases applyDynBinpatch_cases happ with
        ⟨m, w₃, hprep, -, hsame, hvmas, -, -, hworld⟩ | ⟨-, herr, -⟩
      · have hw' : (applyFuncJumps {} ctx (tuneFuncJumps {} ctx m 0).1 w₃).1 = w' :=
          hworld.symm.trans (congrArg Prod.fst hrun)
        obtain ⟨hmapped, hpath, hei, v, front, back, hv, hplaced, hfront, hback⟩ :=
          h.loaded hs hinv hready hfound hspace hprep.loads
        obtain ⟨hcut, habove⟩ := horder v hv
        have hv' : w'.vmas = front ++ block m ++ back := by
          rw [← hw', (applyFuncJumps_frame hdry' happ.fresh w₃).1, hvmas, mappedVmas_eq hdry',
            World.mapAll_vmas hplaced.split hplaced.space]
          rfl
        have hpatch : isPatchGroup (block m) = true := by
          rw [isPatchGroup, groupFile_block hmapped.nonempty, hei, Option.any_some,
            (elfInfoBinpatch_ok hready.info).1]
          rfl
        have hgroups := h.cut_groups hs hfound.choose_spec.1 hcut
        have hshare := above_of_covers hall (hei.trans hready.patchEi.symm) habove
        have hbid : ∀ a ∈ as, patchBidOf a.ei ≠ patchBidOf m.ei := by
          rw [hei]
          exact fun a ha => hready.fresh_bid hall ha
        have hbytes : ∀ f ∈ F, w'.mem.read (dlmLoadBase target + f) 8 =
            entryBytes w₀ (dlmLoadBase target) f (Layers.top covers f (ms ++ [m])) := by
          rw [← hw']
          exact fun f hf =>
            h.jump_bytes hs hinv hready hfound hspace hprep.loads hdry' hsame hf
        obtain ⟨gs', as', hstacked⟩ := h.insert hplaced.split hv' hplaced.space
          (fun u hu => decide_eq_true (hfront u hu))
          (fun u hu => decide_eq_false (BitVec.not_le.mpr (hback u hu)))
          hgroups hshare hmapped hpatch hbid hbytes
        exact ⟨gs', as', m, hstacked, hpath, hei⟩
      · exact absurd (congrArg Prod.snd hrun) herr

end

end Nsb
