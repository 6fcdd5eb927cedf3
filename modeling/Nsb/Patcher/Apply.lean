import Nsb.Patcher.Mapping
import Nsb.Patcher.Patch

/-!
# Applying a patch: all or nothing

`apply_dyn_binpatch` maps the patch, writes its relocations and static
references, tunes its jumps and writes them.  A failure of the first three steps
is reported, and the patch is unmapped again.  A failure of the last two is not:
`tune_patch_func_jumps` and `apply_func_jumps` print it and return zero.  A dry
run returns zero as well: it maps nothing and `write_func_jump` writes nothing.

The first half of the module follows the steps in front of the jumps, the second
half the jumps.  `applyDynBinpatch_allOrNothing_iff` is the equivalence: the call
is all or nothing exactly when every jump is reached and can be encoded, or is
in place already.
-/

namespace Nsb

/-! ## Entries -/

/-- The address of a function of the target. -/
def entryOf (ctx : Ctx) (fj : FuncJump) : Addr := dlmLoadBase ctx.targetDlm + fj.funcValue

/-- Eight bytes inside of a mapping. -/
def Inside (l : List Vma) (a : Addr) : Prop :=
  ∃ v ∈ l, v.addr.toNat ≤ a.toNat ∧ a.toNat + 8 ≤ v.addr.toNat + v.length.toNat

instance (l : List Vma) (a : Addr) : Decidable (Inside l a) :=
  inferInstanceAs (Decidable (∃ v ∈ l, v.addr.toNat ≤ a.toNat ∧ _))

/-- Bytes inside of different mappings are apart. -/
theorem AddressSpace.apart {l₁ l₂ : List Vma} (h : AddressSpace (l₁ ++ l₂)) {a b : Addr}
    (ha : Inside l₁ a) (hb : Inside l₂ b) : Apart a 8 b 8 := by
  obtain ⟨u, hu, hu1, hu2⟩ := ha
  obtain ⟨v, hv, hv1, hv2⟩ := hb
  have hbelow : u.addr.toNat + u.length.toNat ≤ v.addr.toNat :=
    (List.pairwise_append.mp h.below).2.2 u hu v hv
  have htop := h.top v (List.mem_append_right _ hv)
  exact Apart.of_le (by omega) (by decide) (by omega)

/-- Bytes inside of a mapping are apart from other mappings. -/
theorem AddressSpace.apart_vma {l₁ l₂ : List Vma} (h : AddressSpace (l₁ ++ l₂)) {b : Addr} {v : Vma}
    (hv : v ∈ l₁) (hb : Inside l₂ b) : Apart v.addr v.length.toNat b 8 := by
  obtain ⟨u, hu, hu1, hu2⟩ := hb
  have hbelow : v.addr.toNat + v.length.toNat ≤ u.addr.toNat :=
    (List.pairwise_append.mp h.below).2.2 v hv u hu
  have htop := h.top u (List.mem_append_right _ hu)
  have hpos := h.nonempty v (List.mem_append_left _ hv)
  exact Apart.of_le (by omega) hpos (by omega)

theorem AddressSpace.vma_apart {l₁ l₂ : List Vma} (h : AddressSpace (l₁ ++ l₂)) {b : Addr} {v : Vma}
    (hb : Inside l₁ b) (hv : v ∈ l₂) : Apart v.addr v.length.toNat b 8 := by
  obtain ⟨u, hu, hu1, hu2⟩ := hb
  have hbelow : u.addr.toNat + u.length.toNat ≤ v.addr.toNat :=
    (List.pairwise_append.mp h.below).2.2 u hu v hv
  have htop := h.top v (List.mem_append_right _ hv)
  exact (Apart.of_le (by omega) (by decide) (by omega)).symm

theorem inside_append {l₁ l₂ : List Vma} {a : Addr} :
    Inside (l₁ ++ l₂) a ↔ Inside l₁ a ∨ Inside l₂ a := by
  simp only [Inside, List.mem_append, or_and_right, exists_or]

/-- Only the ranges matter. -/
theorem Inside.mono {l l' : List Vma} (hsub : l.map Vma.range ⊆ l'.map Vma.range) {a : Addr}
    (h : Inside l a) : Inside l' a := by
  obtain ⟨v, hv, h1, h2⟩ := h
  obtain ⟨u, hu, hrange⟩ := List.mem_map.mp (hsub (List.mem_map_of_mem hv))
  obtain ⟨haddr, hlen⟩ := Prod.mk.inj hrange
  exact ⟨u, hu, by rw [haddr]; exact h1, by rw [haddr, hlen]; exact h2⟩

section

variable {vmas front back : List Vma} {dlm : DlMap} (h : Placed vmas dlm front back)
include h

/-- The bytes of a placed patch are apart from those that were mapped before. -/
theorem Placed.apart {a b : Addr} (ha : Inside dlm.vmas a) (hb : Inside vmas b) :
    Apart a 8 b 8 := by
  have hspace := h.space
  rw [h.split, inside_append] at hb
  rcases hb with hb | hb
  · exact ((hspace.sublist (List.sublist_append_left ..)).apart hb ha).symm
  · rw [List.append_assoc] at hspace
    exact (hspace.sublist (List.sublist_append_right ..)).apart ha hb

theorem Placed.apart_vma {b : Addr} (hb : Inside vmas b) {v : Vma} (hv : v ∈ dlm.vmas) :
    Apart v.addr v.length.toNat b 8 := by
  have hspace := h.space
  rw [h.split, inside_append] at hb
  rcases hb with hb | hb
  · exact (hspace.sublist (List.sublist_append_left ..)).vma_apart hb hv
  · rw [List.append_assoc] at hspace
    exact (hspace.sublist (List.sublist_append_right ..)).apart_vma hv hb

end

/-! ## Static references -/

/-- A reference of four bytes, which is read before it is written. -/
def isShortRef (ss : StaticSym) : Bool := ss.patchSize.toNat == 4

/-- The reference passes the range test. -/
def refFits (ctx : Ctx) (pdlm : DlMap) (ss : StaticSym) : Bool :=
  decide ¬ (ss.patchSize.toNat < 8 ∧ relocOverflows
    (ss.targetValue + dlmLoadBase ctx.targetDlm - dlmLoadBase pdlm) ss.patchSize.toNat = true)

/-- All references fit, and the calls for them succeed. -/
def RefsOk (ft : Faults) (ctx : Ctx) (pdlm : DlMap) (nread nwrite : Nat) (l : List StaticSym) :
    Prop :=
  (∀ ss ∈ l, refFits ctx pdlm ss = true) ∧ CallsOk ft.read nread (l.countP isShortRef) ∧
    CallsOk ft.write nwrite l.length

/-- The address of a reference. -/
def refOf (pdlm : DlMap) (ss : StaticSym) : Addr := dlmLoadBase pdlm + ss.patchAddress

variable {ft : Faults} {ctx : Ctx} {pdlm : DlMap}

/-- One static reference. -/
theorem applyStaticRef_cases (ft : Faults) (ctx : Ctx) (pdlm : DlMap) (ss : StaticSym) (w : World) :
    (refFits ctx pdlm ss = false ∧ applyStaticRef ft ctx pdlm ss w = (w, -EINVAL)) ∨
    (refFits ctx pdlm ss = true ∧ isShortRef ss = true ∧ ft.read w.nread ≠ 0 ∧
      applyStaticRef ft ctx pdlm ss w =
        ({ w with nread := w.nread + 1 }, -(ft.read w.nread : Int))) ∨
    (refFits ctx pdlm ss = true ∧ isShortRef ss = true ∧ ft.read w.nread = 0 ∧
      ∃ data, applyStaticRef ft ctx pdlm ss w =
        processWriteData ft (refOf pdlm ss) data { w with nread := w.nread + 1 }) ∨
    (refFits ctx pdlm ss = true ∧ isShortRef ss = false ∧
      ∃ data, applyStaticRef ft ctx pdlm ss w = processWriteData ft (refOf pdlm ss) data w) := by
  have hfits : refFits ctx pdlm ss = true ↔ ¬ (ss.patchSize.toNat < 8 ∧ relocOverflows
      (ss.targetValue + dlmLoadBase ctx.targetDlm - dlmLoadBase pdlm) ss.patchSize.toNat = true) :=
    decide_eq_true_iff
  cases hf : refFits ctx pdlm ss with
  | false =>
      have hov : ¬ ¬ _ := fun hn => absurd (hfits.mpr hn) (by simp [hf])
      exact .inl ⟨rfl, if_pos (not_not.mp hov)⟩
  | true =>
      right
      have hstep : applyStaticRef ft ctx pdlm ss w = writeStaticRef ft (refOf pdlm ss)
          (ss.targetValue + dlmLoadBase ctx.targetDlm - dlmLoadBase pdlm) ss.patchSize.toNat w :=
        if_neg (hfits.mp hf)
      cases hs : isShortRef ss with
      | false =>
          have hne : ss.patchSize.toNat ≠ 4 := by simpa [isShortRef] using hs
          exact .inr (.inr ⟨rfl, rfl, _, hstep.trans (if_neg hne)⟩)
      | true =>
          have heq : ss.patchSize.toNat = 4 := by simpa [isShortRef] using hs
          by_cases hr : ft.read w.nread = 0
          · refine .inr (.inl ⟨rfl, rfl, hr, ?_⟩)
            rw [hstep, writeStaticRef, if_pos heq, processReadData, if_pos hr]
            exact ⟨_, rfl⟩
          · refine .inl ⟨rfl, rfl, hr, ?_⟩
            rw [hstep, writeStaticRef, if_pos heq, processReadData, if_neg hr]

/-- The mappings stay, and so do all bytes apart from the reference. -/
theorem applyStaticRef_frame (ss : StaticSym) (w : World) :
    (applyStaticRef ft ctx pdlm ss w).1.vmas = w.vmas ∧
    ∀ b, Apart (refOf pdlm ss) 8 b 8 →
      (applyStaticRef ft ctx pdlm ss w).1.mem.read b 8 = w.mem.read b 8 := by
  rcases applyStaticRef_cases ft ctx pdlm ss w with
    ⟨-, h⟩ | ⟨-, -, -, h⟩ | ⟨-, -, -, data, h⟩ | ⟨-, -, data, h⟩
  · rw [h]
    exact ⟨rfl, fun _ _ => rfl⟩
  · rw [h]
    exact ⟨rfl, fun _ _ => rfl⟩
  · rw [h]
    obtain ⟨h1, -, h3⟩ := @processWriteData_frame ft (refOf pdlm ss) data
      { w with nread := w.nread + 1 }
    exact ⟨h1, fun b hb => h3 b 8 hb⟩
  · rw [h]
    obtain ⟨h1, -, h3⟩ := @processWriteData_frame ft (refOf pdlm ss) data w
    exact ⟨h1, fun b hb => h3 b 8 hb⟩

/-- The reads that a reference takes. -/
def refReads (ss : StaticSym) : Nat := if isShortRef ss then 1 else 0

theorem applyStaticRef_ret (ss : StaticSym) (w : World) :
    ((applyStaticRef ft ctx pdlm ss w).2 = 0 ↔
      refFits ctx pdlm ss = true ∧ CallsOk ft.read w.nread (refReads ss) ∧ ft.write w.nwrite = 0) ∧
    ((applyStaticRef ft ctx pdlm ss w).2 = 0 →
      (applyStaticRef ft ctx pdlm ss w).1.nread = w.nread + refReads ss ∧
      (applyStaticRef ft ctx pdlm ss w).1.nwrite = w.nwrite + 1) := by
  rcases applyStaticRef_cases ft ctx pdlm ss w with
    ⟨hf, h⟩ | ⟨hf, hs, hr, h⟩ | ⟨hf, hs, hr, data, h⟩ | ⟨hf, hs, data, h⟩
  · have hne : (-EINVAL : Int) ≠ 0 := by decide
    rw [h, hf]
    simp [hne]
  · have hcalls : ¬ CallsOk ft.read w.nread 1 := fun hc => hr (hc 0 (by decide))
    rw [h, hf, refReads, hs]
    simp [hcalls, hr]
  · have hcalls : CallsOk ft.read w.nread 1 := callsOk_succ.mpr ⟨hr, callsOk_zero _ _⟩
    rw [h, hf, refReads, hs]
    by_cases hw : ft.write w.nwrite = 0
    · rw [processWriteData_ok _ _ (by exact hw)]
      simp [hcalls, hw]
    · rw [processWriteData_error _ _ (by exact hw)]
      simp [hw]
  · rw [h, hf, refReads, hs]
    by_cases hw : ft.write w.nwrite = 0
    · rw [processWriteData_ok _ _ hw]
      simp [callsOk_zero, hw]
    · rw [processWriteData_error _ _ hw]
      simp [hw]

theorem refsOk_cons {nread nwrite : Nat} {ss : StaticSym} {l : List StaticSym} :
    RefsOk ft ctx pdlm nread nwrite (ss :: l) ↔
      (refFits ctx pdlm ss = true ∧ CallsOk ft.read nread (refReads ss) ∧ ft.write nwrite = 0) ∧
        RefsOk ft ctx pdlm (nread + refReads ss) (nwrite + 1) l := by
  rw [RefsOk, RefsOk, List.forall_mem_cons, List.length_cons, callsOk_succ, refReads]
  cases hs : isShortRef ss with
  | false =>
      rw [List.countP_cons_of_neg (by simp [hs])]
      simp only [Bool.false_eq_true, if_false, Nat.add_zero, callsOk_zero]
      tauto
  | true =>
      rw [List.countP_cons_of_pos hs, callsOk_succ]
      simp only [if_true, callsOk_succ, callsOk_zero]
      tauto

/-- `apply_static_refs` succeeds when all references fit and no call fails, and
then it has made one write for each. -/
theorem each_applyStaticRef (l : List StaticSym) (w : World) :
    ((Loop.each (applyStaticRef ft ctx pdlm) l w).2 = 0 ↔
      RefsOk ft ctx pdlm w.nread w.nwrite l) ∧
    ((Loop.each (applyStaticRef ft ctx pdlm) l w).2 = 0 →
      (Loop.each (applyStaticRef ft ctx pdlm) l w).1.nwrite = w.nwrite + l.length) := by
  induction l generalizing w with
  | nil => simp [RefsOk, callsOk_zero]
  | cons ss l induction =>
      obtain ⟨hret, hcounts⟩ := @applyStaticRef_ret ft ctx pdlm ss w
      by_cases h0 : (applyStaticRef ft ctx pdlm ss w).2 = 0
      · obtain ⟨hread, hwrite⟩ := hcounts h0
        obtain ⟨ih1, ih2⟩ := induction (applyStaticRef ft ctx pdlm ss w).1
        rw [hread, hwrite] at ih1
        rw [Loop.each_cons_ok h0, refsOk_cons, ih1]
        refine ⟨⟨fun hl => ⟨hret.mp h0, hl⟩, fun hl => hl.2⟩, fun hl => ?_⟩
        rw [ih2 (ih1.mpr hl), hwrite, List.length_cons]
        omega
      · rw [Loop.each_cons_stop h0, refsOk_cons]
        exact ⟨⟨fun h => absurd h h0, fun h => absurd (hret.mpr h.1) h0⟩, fun h => absurd h h0⟩

/-! ## The steps in front of the jumps -/

/-- The object of the patch before its segments are added. -/
def patchObject (ctx : Ctx) : DlMap :=
  allocDlMap (ctx.dlMaps.length + 1) ctx.patchEi (some ctx.patchfile)

/-- The place that a patch gets, as `pdlm`. -/
def PlacedAs (ctx : Ctx) (pdlm : DlMap) : Prop :=
  ∃ dlm₁, createElfMmaps (patchObject ctx) = (dlm₁, 0) ∧ pinElfMmaps ctx dlm₁ = (pdlm, 0)

theorem PlacedAs.unique {dlm dlm' : DlMap} (h : PlacedAs ctx dlm) (h' : PlacedAs ctx dlm') :
    dlm = dlm' := by
  obtain ⟨d, hc, hp⟩ := h
  obtain ⟨d', hc', hp'⟩ := h'
  cases hc.symm.trans hc'
  cases hp.symm.trans hp'
  rfl

/-- The patch gets loaded, as `pdlm`.  A dry run stops short of mapping it. -/
structure Loads (ft : Faults) (ctx : Ctx) (w : World) (pdlm : DlMap) : Prop where
  placed : PlacedAs ctx pdlm
  calls : ctx.dryRun = false → LoadCallsOk ft ctx pdlm w

theorem Loads.unique {w : World} {dlm dlm' : DlMap} (h : Loads ft ctx w dlm)
    (h' : Loads ft ctx w dlm') : dlm = dlm' :=
  h.placed.unique h'.placed

/-- The writes that mapping the patch takes. -/
def mapWrites (ctx : Ctx) : Nat := if ctx.dryRun then 0 else loadWrites ctx

/-- The mappings with the patch. -/
def mappedVmas (ctx : Ctx) (pdlm : DlMap) (w : World) : List Vma :=
  if ctx.dryRun then w.vmas else (w.mapAll pdlm.path pdlm.ei pdlm.vmas).vmas

theorem mappedVmas_eq (hdry : ctx.dryRun = false) (pdlm : DlMap) (w : World) :
    mappedVmas ctx pdlm w = (w.mapAll pdlm.path pdlm.ei pdlm.vmas).vmas := by
  rw [mappedVmas, hdry, if_neg Bool.false_ne_true]

/-! How `apply_dyn_binpatch` ends, by the step that fails. -/

/-- The patch that the rollback unloads. -/
def loadedPatch (ctx : Ctx) (pdlm : DlMap) : Patch :=
  { pi := ctx.pi, targetDlm := some ctx.targetDlm, patchDlm := pdlm }

section

variable {relas : List ExternSymbol × List ExternSymbol} {w w₁ : World}

theorem applyDynBinpatch_load (h : (loadPatch ft ctx w).2.2 ≠ 0) :
    applyDynBinpatch ft ctx relas w =
      { world := (loadPatch ft ctx w).2.1, pi := ctx.pi, err := (loadPatch ft ctx w).2.2 } := by
  obtain ⟨⟨pdlm, w₁, err⟩, hl⟩ : ∃ r, loadPatch ft ctx w = r := ⟨_, rfl⟩
  rw [hl] at h
  rw [applyDynBinpatch, hl]
  exact if_pos h

theorem applyDynBinpatch_relocs (hl : loadPatch ft ctx w = (pdlm, w₁, 0))
    (hr : (applyRelocations ft pdlm relas w₁).2 ≠ 0) :
    applyDynBinpatch ft ctx relas w =
      { world := (patchUnload ft ctx (loadedPatch ctx pdlm) (applyRelocations ft pdlm relas w₁).1).1
        pi := ctx.pi
        err := (applyRelocations ft pdlm relas w₁).2
        rollback := (patchUnload ft ctx (loadedPatch ctx pdlm)
          (applyRelocations ft pdlm relas w₁).1).2 } := by
  rw [applyDynBinpatch, hl]
  dsimp only
  rw [if_neg (not_not_intro rfl), if_pos hr]
  rfl

theorem applyDynBinpatch_refs (hl : loadPatch ft ctx w = (pdlm, w₁, 0))
    (hr : (applyRelocations ft pdlm relas w₁).2 = 0)
    (hs : (applyStaticRefs ft ctx pdlm (applyRelocations ft pdlm relas w₁).1).2 ≠ 0) :
    applyDynBinpatch ft ctx relas w =
      { world := (patchUnload ft ctx (loadedPatch ctx pdlm)
          (applyStaticRefs ft ctx pdlm (applyRelocations ft pdlm relas w₁).1).1).1
        pi := ctx.pi
        err := (applyStaticRefs ft ctx pdlm (applyRelocations ft pdlm relas w₁).1).2
        rollback := (patchUnload ft ctx (loadedPatch ctx pdlm)
          (applyStaticRefs ft ctx pdlm (applyRelocations ft pdlm relas w₁).1).1).2 } := by
  rw [applyDynBinpatch, hl]
  dsimp only
  rw [if_neg (not_not_intro rfl), if_neg (not_not_intro hr), if_pos hs]
  rfl

/-- Neither of the last two steps returns an error. -/
theorem applyDynBinpatch_jumps (hl : loadPatch ft ctx w = (pdlm, w₁, 0))
    (hr : (applyRelocations ft pdlm relas w₁).2 = 0)
    (hs : (applyStaticRefs ft ctx pdlm (applyRelocations ft pdlm relas w₁).1).2 = 0) :
    applyDynBinpatch ft ctx relas w =
      { world := (applyFuncJumps ft ctx (tuneFuncJumps ft ctx pdlm 0).1
          (applyStaticRefs ft ctx pdlm (applyRelocations ft pdlm relas w₁).1).1).1
        pi := (tuneFuncJumps ft ctx pdlm 0).1
        err := 0 } := by
  rw [applyDynBinpatch, hl]
  dsimp only
  rw [if_neg (not_not_intro rfl), if_neg (not_not_intro hr), if_neg (not_not_intro hs)]
  rfl

end

/-- The number of writes in front of the jumps. -/
def writesBefore (ctx : Ctx) (relas : List ExternSymbol × List ExternSymbol) (w : World) : Nat :=
  w.nwrite + mapWrites ctx + (relas.1 ++ relas.2).length + ctx.pi.staticSyms.length

/-- The steps in front of the jumps succeed. -/
structure Prepares (ft : Faults) (ctx : Ctx) (relas : List ExternSymbol × List ExternSymbol)
    (w : World) (pdlm : DlMap) : Prop where
  loads : Loads ft ctx w pdlm
  relocs : CallsOk ft.write (w.nwrite + mapWrites ctx) (relas.1 ++ relas.2).length
  refs : RefsOk ft ctx pdlm w.nread (w.nwrite + mapWrites ctx + (relas.1 ++ relas.2).length)
    ctx.pi.staticSyms

/-- A patch for a process.  System calls do not fail; the mappings are as the
kernel keeps them and nsb knows them all; the functions do not overlap and are
mapped, not on page zero; the relocations and references are in the patch. -/
structure Applicable (ft : Faults) (ctx : Ctx) (relas : List ExternSymbol × List ExternSymbol)
    (w : World) : Prop where
  sys : ∀ n, ft.sys n = 0
  space : AddressSpace ctx.vmas
  target : AddressSpace ctx.targetDlm.vmas
  known : (w.vmas.map Vma.range).Sublist (ctx.vmas.map Vma.range)
  file : PatchFile ctx.patchEi
  fresh : ∀ fj ∈ ctx.pi.funcJumps, fj.funcAddr = 0
  mapped : ∀ fj ∈ ctx.pi.funcJumps, Inside ctx.vmas (entryOf ctx fj)
  pageZero : ∀ fj ∈ ctx.pi.funcJumps, 8 ≤ (entryOf ctx fj).toNat
  apart : ctx.pi.funcJumps.Pairwise fun a b => Apart (entryOf ctx a) 8 (entryOf ctx b) 8
  relocs : ∀ pdlm, Loads ft ctx w pdlm → ∀ es ∈ relas.1 ++ relas.2,
    Inside pdlm.vmas (slotOf pdlm es.rela)
  refs : ∀ pdlm, Loads ft ctx w pdlm → ∀ ss ∈ ctx.pi.staticSyms, Inside pdlm.vmas (refOf pdlm ss)

/-- The functions of the target hold the same bytes. -/
def SameEntries (ctx : Ctx) (w w' : World) : Prop :=
  ∀ fj ∈ ctx.pi.funcJumps, w'.mem.read (entryOf ctx fj) 8 = w.mem.read (entryOf ctx fj) 8

/-- The mappings hold the same bytes. -/
def Unchanged (l : List Vma) (w w' : World) : Prop :=
  ∀ b, Inside l b → w'.mem.read b 8 = w.mem.read b 8

theorem Unchanged.trans {l : List Vma} {w w' w'' : World} (h : Unchanged l w w')
    (h' : Unchanged l w' w'') : Unchanged l w w'' :=
  fun b hb => (h' b hb).trans (h b hb)

/-! In a dry run the patch is neither mapped nor unmapped, and no jump is written. -/

section

variable (hdry : ctx.dryRun = true)
include hdry

theorem patchUnload_dry (p : Patch) (w : World) : patchUnload ft ctx p w = (w, 0) :=
  if_pos hdry

theorem processMmapDlMap_dry (dlm : DlMap) (w : World) : processMmapDlMap ft ctx dlm w = (w, 0) :=
  if_pos hdry

theorem applyFuncJumps_dry (pi : PatchInfo) (w : World) :
    applyFuncJumps ft ctx pi w = (w, 0) := by
  have hloop : (Loop.each (writeFuncJump ft ctx) pi.funcJumps w).1 = w := by
    refine Loop.each_inv (I := fun w' => w' = w) ?_ rfl
    rintro fj - w' rfl
    rw [writeFuncJump, if_pos hdry]
  rw [applyFuncJumps, iteratePatchFunctionJumps]
  exact Prod.ext hloop rfl

end

/-- `load_patch` finds a place for the patch and maps it there, or fails before. -/
theorem loadPatch_placed (ft : Faults) (ctx : Ctx) (w : World) :
    (∃ pdlm, PlacedAs ctx pdlm ∧
      loadPatch ft ctx w = (pdlm, processMmapDlMap ft ctx pdlm w)) ∨
    ((∀ pdlm, ¬ PlacedAs ctx pdlm) ∧ (loadPatch ft ctx w).2.1 = w ∧
      (loadPatch ft ctx w).2.2 ≠ 0) := by
  obtain ⟨⟨dlm₁, err₁⟩, hc⟩ : ∃ r, createElfMmaps (patchObject ctx) = r := ⟨_, rfl⟩
  obtain ⟨⟨dlm₂, err₂⟩, hp⟩ : ∃ r, pinElfMmaps ctx dlm₁ = r := ⟨_, rfl⟩
  have hload : loadPatch ft ctx w = if err₁ ≠ 0 then (dlm₁, w, err₁) else
      if err₂ ≠ 0 then (dlm₂, w, err₂) else (dlm₂, processMmapDlMap ft ctx dlm₂ w) := by
    show loadElf ft ctx (patchObject ctx) w = _
    rw [loadElf, hc]
    dsimp only
    rw [hp]
  rw [hload]
  by_cases h₁ : err₁ = 0
  · by_cases h₂ : err₂ = 0
    · rw [h₁] at hc
      rw [h₂] at hp
      rw [if_neg (not_not_intro h₁), if_neg (not_not_intro h₂)]
      exact .inl ⟨dlm₂, ⟨dlm₁, hc, hp⟩, rfl⟩
    · rw [if_neg (not_not_intro h₁), if_pos h₂]
      refine .inr ⟨?_, rfl, h₂⟩
      rintro pdlm ⟨d, hc', hp'⟩
      cases hc.symm.trans hc'
      cases hp.symm.trans hp'
      exact h₂ rfl
  · rw [if_pos h₁]
    refine .inr ⟨?_, rfl, h₁⟩
    rintro pdlm ⟨d, hc', -⟩
    cases hc.symm.trans hc'
    exact h₁ rfl

section

variable {relas : List ExternSymbol × List ExternSymbol} {w : World}
  (h : Applicable ft ctx relas w)
include h

theorem Applicable.placed (hl : Loads ft ctx w pdlm) :
    ∃ front back front' back', Placed ctx.vmas pdlm front back ∧
      Placed w.vmas pdlm front' back' := by
  obtain ⟨⟨dlm₁, hcreate, hpin⟩, -⟩ := hl
  obtain ⟨a, front, back, -, -, hplaced, -⟩ :=
    pinElfMmaps_placed h.space h.target h.file hcreate hpin
  obtain ⟨front', back', hplaced', -, -⟩ := hplaced.restrict h.known
  exact ⟨front, back, front', back', hplaced, hplaced'⟩

/-- The functions are apart from the eight bytes at address zero. -/
theorem Applicable.zero_apart {fj : FuncJump} (hfj : fj ∈ ctx.pi.funcJumps) :
    Apart 0 8 (entryOf ctx fj) 8 := by
  obtain ⟨v, hv, hlo, hhi⟩ := h.mapped fj hfj
  have htop := h.space.top v hv
  have hzero := h.pageZero fj hfj
  exact Apart.of_le (by simpa using hzero) (by decide) (by omega)

theorem Applicable.sameEntries {w' : World} (hsame : Unchanged ctx.vmas w w') :
    SameEntries ctx w w' :=
  fun fj hfj => hsame _ (h.mapped fj hfj)

/-- Mapping the patch does not touch what was mapped before. -/
theorem Applicable.mapAll_unchanged (hl : Loads ft ctx w pdlm) (n k : Nat) :
    Unchanged ctx.vmas w { w.mapAll pdlm.path pdlm.ei pdlm.vmas with nwrite := n, nsys := k } := by
  obtain ⟨front, back, -, -, hplaced, -⟩ := h.placed hl
  intro b hb
  exact World.mapAll_read fun v hv => hplaced.apart_vma hb hv

/-- `load_patch` maps the patch or changes nothing.  A dry run that finds a place
does both. -/
theorem loadPatch_cases :
    (∃ pdlm w₁, Loads ft ctx w pdlm ∧ loadPatch ft ctx w = (pdlm, w₁, 0) ∧
      w₁.nread = w.nread ∧ w₁.nwrite = w.nwrite + mapWrites ctx ∧
      w₁.vmas = mappedVmas ctx pdlm w ∧ Unchanged ctx.vmas w w₁) ∨
    ((∀ dlm, ¬ Loads ft ctx w dlm) ∧ (loadPatch ft ctx w).2.2 ≠ 0 ∧
      (loadPatch ft ctx w).2.1.mem = w.mem ∧ (loadPatch ft ctx w).2.1.vmas = w.vmas) := by
  rcases loadPatch_placed ft ctx w with ⟨pdlm, hplaced, hload⟩ | ⟨hno, hw, herr⟩
  · rw [hload]
    cases hdry : ctx.dryRun with
    | true =>
        rw [processMmapDlMap_dry hdry]
        refine .inl ⟨pdlm, w, ⟨hplaced, fun hd => ?_⟩, rfl, rfl, ?_, ?_, fun _ _ => rfl⟩
        · rw [hdry] at hd
          cases hd
        · rw [mapWrites, if_pos hdry, Nat.add_zero]
        · rw [mappedVmas, if_pos hdry]
    | false =>
        by_cases hcalls : LoadCallsOk ft ctx pdlm w
        · have hl : Loads ft ctx w pdlm := ⟨hplaced, fun _ => hcalls⟩
          obtain ⟨n, hn⟩ := processMmapDlMap_ok h.sys hdry hcalls
          rw [hn]
          refine .inl ⟨pdlm, _, hl, rfl, World.mapAll_nread .., ?_, ?_, h.mapAll_unchanged hl _ n⟩
          · rw [mapWrites, hdry, if_neg Bool.false_ne_true]
          · rw [mappedVmas_eq hdry]
        · refine .inr ⟨fun dlm hl => hcalls ?_, processMmapDlMap_error h.sys hdry hcalls⟩
          rw [hplaced.unique hl.placed]
          exact hl.calls hdry
  · exact .inr ⟨fun dlm hl => hno dlm hl.placed, herr, by rw [hw], by rw [hw]⟩

/-- Relocations are written into the patch. -/
theorem Applicable.relocations_spec (hl : Loads ft ctx w pdlm) (w₁ : World) :
    ((applyRelocations ft pdlm relas w₁).2 = 0 ↔
      CallsOk ft.write w₁.nwrite (relas.1 ++ relas.2).length) ∧
    ((applyRelocations ft pdlm relas w₁).2 = 0 → (applyRelocations ft pdlm relas w₁).1.nwrite =
      w₁.nwrite + (relas.1 ++ relas.2).length) ∧
    (applyRelocations ft pdlm relas w₁).1.nread = w₁.nread ∧
    (applyRelocations ft pdlm relas w₁).1.vmas = w₁.vmas ∧
    Unchanged ctx.vmas w₁ (applyRelocations ft pdlm relas w₁).1 := by
  obtain ⟨front, back, -, -, hplaced, -⟩ := h.placed hl
  have hapart : ∀ b, Inside ctx.vmas b → ∀ es ∈ relas.1 ++ relas.2,
      Apart (esWrite pdlm es).1 8 b 8 :=
    fun b hb es hes => hplaced.apart (h.relocs pdlm hl es hes) hb
  have heq : applyRelocations ft pdlm relas w₁ = Loop.each
      (fun es => processWriteData ft (esWrite pdlm es).1 (esWrite pdlm es).2)
      (relas.1 ++ relas.2) w₁ := applyRelocations_eq ft pdlm relas w₁
  rw [heq]
  obtain ⟨hvmas, hread⟩ := @each_write_calls ft _ (esWrite pdlm) (relas.1 ++ relas.2) w₁
  refine ⟨each_write_ret, fun hret => (each_write_ok (each_write_ret.mp hret)).2.2, hread,
    hvmas, ?_⟩
  exact fun b hb => each_write_apart (hapart b hb)

/-- Static references are written into the patch. -/
theorem Applicable.staticRefs_spec (hl : Loads ft ctx w pdlm) (w₂ : World) :
    (applyStaticRefs ft ctx pdlm w₂).1.vmas = w₂.vmas ∧
    Unchanged ctx.vmas w₂ (applyStaticRefs ft ctx pdlm w₂).1 := by
  obtain ⟨front, back, -, -, hplaced, -⟩ := h.placed hl
  refine Loop.each_inv (I := fun w' : World => w'.vmas = w₂.vmas ∧ Unchanged ctx.vmas w₂ w') ?_
    ⟨rfl, fun _ _ => rfl⟩
  rintro ss hss w' ⟨hvmas, hsame⟩
  obtain ⟨hv, hframe⟩ := @applyStaticRef_frame ft ctx pdlm ss w'
  refine ⟨hv.trans hvmas, hsame.trans fun b hb => hframe b ?_⟩
  exact hplaced.apart (h.refs pdlm hl ss hss) hb

/-- Unloading after a failed step gives the old mappings back. -/
theorem Applicable.unload_restores (hl : Loads ft ctx w pdlm) {p : Patch} (hp : p.patchDlm = pdlm)
    {w' : World} (hvmas : w'.vmas = mappedVmas ctx pdlm w)
    (hsame : Unchanged ctx.vmas w w') (hret : (patchUnload ft ctx p w').2 = 0) :
    SameEntries ctx w (patchUnload ft ctx p w').1 ∧ (patchUnload ft ctx p w').1.vmas = w.vmas := by
  cases hdry : ctx.dryRun with
  | true =>
      rw [patchUnload_dry hdry]
      rw [mappedVmas, if_pos hdry] at hvmas
      exact ⟨h.sameEntries hsame, hvmas⟩
  | false =>
      rw [mappedVmas_eq hdry] at hvmas
      obtain ⟨-, -, front, back, -, hplaced⟩ := h.placed hl
      have hmapped : w'.vmas = front ++ pdlm.vmas.map (fileVma pdlm.path pdlm.ei) ++ back :=
        hvmas.trans (World.mapAll_vmas hplaced.split hplaced.space)
      obtain ⟨hmem, hv⟩ := processMunmapDlMap_ok h.sys hdry hret
      constructor
      · intro fj hfj
        show (processMunmapDlMap ft ctx p.patchDlm w').1.mem.read _ 8 = _
        rw [hmem]
        exact h.sameEntries hsame fj hfj
      · show (processMunmapDlMap ft ctx p.patchDlm w').1.vmas = _
        rw [hv, hp, World.unmapAll_vmas hmapped (by rw [List.map_map]; rfl) hplaced.space,
          hplaced.split]

/-- `apply_dyn_binpatch` gets to the jumps, or it fails and leaves things as they
were. -/
theorem applyDynBinpatch_cases :
    (∃ pdlm w₃, Prepares ft ctx relas w pdlm ∧ (loadPatch ft ctx w).1 = pdlm ∧
      Unchanged ctx.vmas w w₃ ∧ w₃.vmas = mappedVmas ctx pdlm w ∧
      w₃.nwrite = writesBefore ctx relas w ∧
      (applyDynBinpatch ft ctx relas w).err = 0 ∧ (applyDynBinpatch ft ctx relas w).world =
        (applyFuncJumps ft ctx (tuneFuncJumps ft ctx pdlm 0).1 w₃).1) ∨
    ((∀ pdlm, ¬ Prepares ft ctx relas w pdlm) ∧ (applyDynBinpatch ft ctx relas w).err ≠ 0 ∧
      ((applyDynBinpatch ft ctx relas w).rollback = 0 →
        SameEntries ctx w (applyDynBinpatch ft ctx relas w).world ∧
        (applyDynBinpatch ft ctx relas w).world.vmas = w.vmas)) := by
  rcases loadPatch_cases h with
    ⟨pdlm, w₁, hl, hload, hread₁, hwrite₁, hvmas₁, hsame⟩ | ⟨hno, herr, hmem, hvmas⟩
  · obtain ⟨hrel, hrel₂, hread₂, hvmas₂, hsame₂⟩ := h.relocations_spec hl w₁
    obtain ⟨hvmas₃, hsame₃⟩ := h.staticRefs_spec hl (applyRelocations ft pdlm relas w₁).1
    obtain ⟨href, href₂⟩ := @each_applyStaticRef ft ctx pdlm ctx.pi.staticSyms
      (applyRelocations ft pdlm relas w₁).1
    have honly : ∀ dlm, Loads ft ctx w dlm → dlm = pdlm := fun dlm hd => hd.unique hl
    rw [hwrite₁] at hrel hrel₂
    by_cases hr : (applyRelocations ft pdlm relas w₁).2 = 0
    · rw [hrel₂ hr, hread₂, hread₁] at href
      by_cases hs : (applyStaticRefs ft ctx pdlm (applyRelocations ft pdlm relas w₁).1).2 = 0
      · left
        refine ⟨pdlm, _, ⟨hl, hrel.mp hr, href.mp hs⟩, by rw [hload],
          (hsame.trans hsame₂).trans hsame₃,
          (hvmas₃.trans hvmas₂).trans hvmas₁, ?_, ?_⟩
        · exact (href₂ hs).trans (by rw [hrel₂ hr]; rfl)
        · rw [applyDynBinpatch_jumps hload hr hs]
          exact ⟨rfl, rfl⟩
      · right
        rw [applyDynBinpatch_refs hload hr hs]
        refine ⟨fun dlm hd => hs (href.mpr ?_), hs, fun hret => ?_⟩
        · rw [← honly dlm hd.loads]
          exact hd.refs
        · exact h.unload_restores hl rfl ((hvmas₃.trans hvmas₂).trans hvmas₁)
            ((hsame.trans hsame₂).trans hsame₃) hret
    · right
      rw [applyDynBinpatch_relocs hload hr]
      refine ⟨fun dlm hd => hr (hrel.mpr hd.relocs), hr, fun hret => ?_⟩
      exact h.unload_restores hl rfl (hvmas₂.trans hvmas₁)
        (hsame.trans hsame₂) hret
  · right
    rw [applyDynBinpatch_load herr]
    refine ⟨fun pdlm hp => hno pdlm hp.loads, herr, fun _ => ⟨?_, hvmas⟩⟩
    intro fj hfj
    dsimp only
    rw [hmem]

end

/-! ## Tuning -/

/-- The replacement of a function in the patch. -/
def destOf (pdlm : DlMap) (fj : FuncJump) : Addr := dlmLoadBase pdlm + fj.patchValue

/-- The old code of a function can be looked up in the file of the target. -/
def codeReadable (target : DlMap) (fj : FuncJump) : Bool :=
  (target.execVma.bind Vma.mapFile).isSome &&
    decide (0 ≤ (fj.funcValue - elfSectionVirtBase target.ei (fj.shndx.setWidth 16)).toInt)

theorem readFuncJumpCode_spec (ft : Faults) (target : DlMap) (fj : FuncJump) (n : Nat) :
    (readFuncJumpCode ft target fj n).1.funcAddr = fj.funcAddr ∧
    (readFuncJumpCode ft target fj n).1.funcJump = fj.funcJump ∧
    ((readFuncJumpCode ft target fj n).2 = 0 ↔ codeReadable target fj = true ∧ ft.file n = 0) := by
  simp only [readFuncJumpCode, codeReadable]
  cases target.execVma.bind Vma.mapFile with
  | none => exact ⟨rfl, rfl, by simp [EFAULT]⟩
  | some file =>
      dsimp only
      generalize fj.funcValue - elfSectionVirtBase target.ei (fj.shndx.setWidth 16) = offset
      split
      · rename_i hneg
        refine ⟨rfl, rfl, ?_⟩
        simp [EINVAL, Int.not_le.mpr hneg]
      · rename_i hpos
        split
        · rename_i hfile
          refine ⟨rfl, rfl, ?_⟩
          simp [hfile, Int.not_lt.mp hpos]
        · rename_i hfile
          refine ⟨rfl, rfl, ?_⟩
          simp [hfile]

/-- Tuning one jump. -/
theorem tunePatchFuncJump_spec (ft : Faults) (target patch : DlMap) (fj : FuncJump) (n : Nat) :
    ∃ fj', (tunePatchFuncJump ft target patch fj n).1 = some fj' ∧
      fj'.funcAddr = dlmLoadBase target + fj.funcValue ∧
      fj'.funcJump = (if Encodable (dlmLoadBase target + fj.funcValue) (destOf patch fj) then
        jumpBytes (dlmLoadBase target + fj.funcValue) (destOf patch fj) else jmpqTemplate 8) ∧
      ((tunePatchFuncJump ft target patch fj n).2.2 = 0 ↔
        (Encodable (dlmLoadBase target + fj.funcValue) (destOf patch fj) ∧
          codeReadable target fj = true) ∧ ft.file n = 0) ∧
      ((tunePatchFuncJump ft target patch fj n).2.2 = 0 →
        (tunePatchFuncJump ft target patch fj n).2.1 = n + 1) := by
  rw [tunePatchFuncJump]
  dsimp only
  by_cases henc : Encodable (dlmLoadBase target + fj.funcValue) (destOf patch fj)
  · have hjump : x86JmpqInstruction fj.funcJump (dlmLoadBase target + fj.funcValue)
        (dlmLoadBase patch + fj.patchValue) = _ := x86JmpqInstruction_ok fj.funcJump henc
    rw [hjump]
    dsimp only
    obtain ⟨haddr, hjump', hret⟩ := readFuncJumpCode_spec ft target
      { fj with funcAddr := dlmLoadBase target + fj.funcValue
                funcJump := jumpBytes (dlmLoadBase target + fj.funcValue) (destOf patch fj) } n
    rw [if_neg (by decide)]
    refine ⟨_, rfl, haddr, ?_, ?_, fun _ => rfl⟩
    · rw [if_pos henc]
      exact hjump'
    · rw [and_iff_right henc]
      exact hret
  · have hjump : x86JmpqInstruction fj.funcJump (dlmLoadBase target + fj.funcValue)
        (dlmLoadBase patch + fj.patchValue) = _ := x86JmpqInstruction_error fj.funcJump henc
    rw [hjump]
    dsimp only
    rw [if_pos (by decide)]
    have hne : ¬ (-1 : Int) = 0 := by decide
    refine ⟨_, rfl, rfl, by rw [if_neg henc], ?_, fun h => absurd h hne⟩
    exact ⟨fun h => absurd h hne, fun h => absurd h.1.1 henc⟩

/-- All of the jumps can be tuned. -/
def TuneOk (ft : Faults) (target patch : DlMap) (n : Nat) (l : List FuncJump) : Prop :=
  (∀ fj ∈ l, Encodable (dlmLoadBase target + fj.funcValue) (destOf patch fj) ∧
    codeReadable target fj = true) ∧ CallsOk ft.file n l.length

/-- The loop of `tune_patch_func_jumps`. -/
theorem eachSafe_tune (ft : Faults) (target patch : DlMap) (l : List FuncJump) (n : Nat) :
    (Loop.eachSafe (tunePatchFuncJump ft target patch) l n).1.length = l.length ∧
    ((Loop.eachSafe (tunePatchFuncJump ft target patch) l n).2.2 = 0 ↔
      TuneOk ft target patch n l) ∧
    ((Loop.eachSafe (tunePatchFuncJump ft target patch) l n).2.2 = 0 →
      (Loop.eachSafe (tunePatchFuncJump ft target patch) l n).2.1 = n + l.length) := by
  induction l generalizing n with
  | nil => simp [TuneOk, callsOk_zero]
  | cons fj l induction =>
      obtain ⟨fj', hfj', -, -, hret, hstate⟩ := tunePatchFuncJump_spec ft target patch fj n
      have hcons : TuneOk ft target patch n (fj :: l) ↔
          ((Encodable (dlmLoadBase target + fj.funcValue) (destOf patch fj) ∧
            codeReadable target fj = true) ∧ ft.file n = 0) ∧ TuneOk ft target patch (n + 1) l := by
        rw [TuneOk, TuneOk, List.forall_mem_cons, List.length_cons, callsOk_succ]
        tauto
      by_cases h0 : (tunePatchFuncJump ft target patch fj n).2.2 = 0
      · obtain ⟨ih1, ih2, ih3⟩ := induction (n + 1)
        rw [Loop.eachSafe_cons_ok h0, hstate h0, hfj', hcons]
        refine ⟨by simpa using ih1, ?_, ?_⟩
        · exact ⟨fun hl => ⟨hret.mp h0, ih2.mp hl⟩, fun hl => ih2.mpr hl.2⟩
        · intro hl
          have hn := ih3 hl
          rw [List.length_cons]
          dsimp only at hn ⊢
          omega
      · rw [Loop.eachSafe_cons_stop h0, hfj', hcons]
        exact ⟨by simp, ⟨fun hl => absurd hl h0, fun hl => absurd (hret.mpr hl.1) h0⟩,
          fun hl => absurd hl h0⟩

/-- The old code of a function, as the file of the target has it. -/
def fileCode (target : DlMap) (fj : FuncJump) : Word :=
  match target.execVma.bind Vma.mapFile with
  | none => Vector.replicate 8 0
  | some file => Vector.ofFn fun i => file.data
      (fj.funcValue - elfSectionVirtBase target.ei (fj.shndx.setWidth 16) + BitVec.ofNat 64 i.val)

/-- A jump that is tuned. -/
def tunedJump (target patch : DlMap) (fj : FuncJump) : FuncJump :=
  { fj with
    funcAddr := dlmLoadBase target + fj.funcValue
    funcJump := jumpBytes (dlmLoadBase target + fj.funcValue) (destOf patch fj)
    code := fileCode target fj }

theorem readFuncJumpCode_ok {ft : Faults} {target : DlMap} {fj : FuncJump} {n : Nat}
    (hcode : codeReadable target fj = true) (hfile : ft.file n = 0) :
    readFuncJumpCode ft target fj n = ({ fj with code := fileCode target fj }, 0) := by
  simp only [codeReadable, Bool.and_eq_true, decide_eq_true_eq] at hcode
  simp only [readFuncJumpCode, fileCode]
  cases hf : target.execVma.bind Vma.mapFile with
  | none => rw [hf] at hcode; cases hcode.1
  | some file =>
      dsimp only
      rw [if_neg (Int.not_lt.mpr hcode.2), if_pos hfile]

theorem tunePatchFuncJump_ok {ft : Faults} {target patch : DlMap} {fj : FuncJump} {n : Nat}
    (henc : Encodable (dlmLoadBase target + fj.funcValue) (destOf patch fj))
    (hcode : codeReadable target fj = true) (hfile : ft.file n = 0) :
    tunePatchFuncJump ft target patch fj n = (some (tunedJump target patch fj), n + 1, 0) := by
  have hjump : x86JmpqInstruction fj.funcJump (dlmLoadBase target + fj.funcValue)
      (dlmLoadBase patch + fj.patchValue) = _ := x86JmpqInstruction_ok fj.funcJump henc
  rw [tunePatchFuncJump]
  dsimp only
  rw [hjump]
  dsimp only
  rw [if_neg (by decide), readFuncJumpCode_ok (by exact hcode) hfile]
  rfl

/-- All jumps get tuned. -/
theorem eachSafe_tune_ok {ft : Faults} {target patch : DlMap} {l : List FuncJump} {n : Nat}
    (h : TuneOk ft target patch n l) :
    (Loop.eachSafe (tunePatchFuncJump ft target patch) l n).1 = l.map (tunedJump target patch) := by
  induction l generalizing n with
  | nil => rfl
  | cons fj l induction =>
      obtain ⟨hjumps, hcalls⟩ := h
      obtain ⟨⟨henc, hcode⟩, hl⟩ := List.forall_mem_cons.mp hjumps
      obtain ⟨hfile, hrest⟩ := callsOk_succ.mp hcalls
      have hstep := tunePatchFuncJump_ok henc hcode hfile
      rw [Loop.eachSafe_cons_ok (by rw [hstep]), hstep]
      dsimp only
      rw [induction ⟨hl, hrest⟩]
      rfl

/-! ## Writing the jumps -/

/-- The write of a jump is made and succeeds: it is no dry run, the jumps in front
of it can be tuned, and neither their writes nor its own fail. -/
structure Written (ft : Faults) (ctx : Ctx) (pdlm : DlMap) (nwrite : Nat)
    (front : List FuncJump) : Prop where
  dryRun : ctx.dryRun = false
  tune : TuneOk ft ctx.targetDlm pdlm 0 front
  calls : CallsOk ft.write nwrite (front.length + 1)

/-- The function gets its jump, or it is left alone and has it already. -/
def JumpDone (ft : Faults) (ctx : Ctx) (pdlm : DlMap) (nwrite : Nat) (w : World)
    (front : List FuncJump) (fj : FuncJump) : Prop :=
  (Written ft ctx pdlm nwrite front ∧ Encodable (entryOf ctx fj) (destOf pdlm fj)) ∨
  (¬ Written ft ctx pdlm nwrite front ∧
    IsJump (w.mem.read (entryOf ctx fj) 8) (entryOf ctx fj) (destOf pdlm fj))

/-- A tuned jump is at its function; one that the loop did not get to is at
address zero. -/
theorem tuned_addr {l : List FuncJump} {n : Nat} {fj' : FuncJump}
    (hz : ∀ fj ∈ l, fj.funcAddr = 0)
    (h : fj' ∈ (Loop.eachSafe (tunePatchFuncJump ft ctx.targetDlm pdlm) l n).1) :
    fj'.funcAddr = 0 ∨ ∃ fj ∈ l, fj'.funcAddr = entryOf ctx fj := by
  rcases Loop.eachSafe_mem h with hl | ⟨fj, hfj, k, hk⟩
  · exact .inl (hz fj' hl)
  · obtain ⟨fj'', hsome, haddr, -⟩ := tunePatchFuncJump_spec ft ctx.targetDlm pdlm fj k
    rw [hsome] at hk
    cases hk
    exact .inr ⟨fj, hfj, haddr⟩

/-- The writes of `apply_func_jumps`, outside of a dry run. -/
theorem applyFuncJumps_eq (hdry : ctx.dryRun = false) (pi : PatchInfo) (w : World) :
    (applyFuncJumps ft ctx pi w).1 =
      (Loop.each (fun a => processWriteData ft a.funcAddr a.funcJump) pi.funcJumps w).1 := by
  have hwrite : writeFuncJump ft ctx = fun a => processWriteData ft a.funcAddr a.funcJump := by
    funext a w'
    rw [writeFuncJump, hdry, if_neg Bool.false_ne_true]
  rw [← hwrite]
  rfl

/-- `apply_func_jumps` changes no mapping and no bytes apart from the functions. -/
theorem applyFuncJumps_frame (hdry : ctx.dryRun = false)
    (hz : ∀ fj ∈ ctx.pi.funcJumps, fj.funcAddr = 0) (w₃ : World) :
    (applyFuncJumps ft ctx (tuneFuncJumps ft ctx pdlm 0).1 w₃).1.vmas = w₃.vmas ∧
    ∀ b, Apart 0 8 b 8 → (∀ fj ∈ ctx.pi.funcJumps, Apart (entryOf ctx fj) 8 b 8) →
      (applyFuncJumps ft ctx (tuneFuncJumps ft ctx pdlm 0).1 w₃).1.mem.read b 8 =
        w₃.mem.read b 8 := by
  rw [applyFuncJumps_eq hdry]
  constructor
  · exact (each_write_calls (g := fun a : FuncJump => (a.funcAddr, a.funcJump)) _ w₃).1
  · intro b h0 hb
    refine each_write_apart (g := fun a : FuncJump => (a.funcAddr, a.funcJump)) fun a ha => ?_
    rcases tuned_addr hz ha with haddr | ⟨fj, hfj, haddr⟩
    · rw [haddr]
      exact h0
    · rw [haddr]
      exact hb fj hfj

section

variable {relas : List ExternSymbol × List ExternSymbol} {w w₃ : World}
  (h : Applicable ft ctx relas w)
include h

/-- The writes for other jumps do not touch a function. -/
theorem Applicable.tuned_apart {l : List FuncJump} {n : Nat} {fj : FuncJump}
    (hl : ∀ a ∈ l, a ∈ ctx.pi.funcJumps) (hfj : fj ∈ ctx.pi.funcJumps)
    (hap : ∀ a ∈ l, Apart (entryOf ctx a) 8 (entryOf ctx fj) 8) :
    ∀ a ∈ (Loop.eachSafe (tunePatchFuncJump ft ctx.targetDlm pdlm) l n).1,
      Apart a.funcAddr 8 (entryOf ctx fj) 8 := by
  intro a ha
  rcases tuned_addr (fun b hb => h.fresh b (hl b hb)) ha with hz | ⟨b, hb, haddr⟩
  · rw [hz]
    exact h.zero_apart hfj
  · rw [haddr]
    exact hap b hb

/-- A jump that the loop did not get to is apart from the function of another. -/
theorem Applicable.fresh_apart {a fj : FuncJump} (ha : a ∈ ctx.pi.funcJumps)
    (hfj : fj ∈ ctx.pi.funcJumps) : Apart a.funcAddr 8 (entryOf ctx fj) 8 := by
  rw [h.fresh a ha]
  exact h.zero_apart hfj

/-- The jumps in front of one and behind it are for other functions. -/
theorem Applicable.apart_of_split {front back : List FuncJump} {fj : FuncJump}
    (hsplit : ctx.pi.funcJumps = front ++ fj :: back) :
    (∀ a ∈ front, Apart (entryOf ctx a) 8 (entryOf ctx fj) 8) ∧
      ∀ a ∈ back, Apart (entryOf ctx a) 8 (entryOf ctx fj) 8 := by
  have hapart := h.apart
  rw [hsplit] at hapart
  obtain ⟨-, hcons, hcross⟩ := List.pairwise_append.mp hapart
  exact ⟨fun a ha => hcross a ha fj (List.mem_cons_self ..),
    fun a ha => (List.rel_of_pairwise_cons hcons ha).symm⟩

/-- The loop leaves a jump at the head of the list, and the jumps behind it stay
apart from its function, tuned or not. -/
theorem Applicable.tuned_cons {back : List FuncJump} {fj x : FuncJump} {n : Nat}
    (hfj : fj ∈ ctx.pi.funcJumps) (hback : ∀ a ∈ back, a ∈ ctx.pi.funcJumps)
    (hap : ∀ a ∈ back, Apart (entryOf ctx a) 8 (entryOf ctx fj) 8)
    (hx : (tunePatchFuncJump ft ctx.targetDlm pdlm fj n).1 = some x) :
    ∃ rest, (Loop.eachSafe (tunePatchFuncJump ft ctx.targetDlm pdlm) (fj :: back) n).1 =
        x :: rest ∧ ∀ a ∈ rest, Apart a.funcAddr 8 (entryOf ctx fj) 8 := by
  by_cases hr : (tunePatchFuncJump ft ctx.targetDlm pdlm fj n).2.2 = 0
  · rw [Loop.eachSafe_cons_ok hr, hx]
    exact ⟨_, rfl, h.tuned_apart hback hfj hap⟩
  · rw [Loop.eachSafe_cons_stop hr, hx]
    exact ⟨_, rfl, fun a ha => h.fresh_apart (hback a ha) hfj⟩

/-- What a function holds after `apply_func_jumps`. -/
theorem Applicable.jump_read {front back : List FuncJump} {fj : FuncJump}
    (hsplit : ctx.pi.funcJumps = front ++ fj :: back) :
    (Written ft ctx pdlm w₃.nwrite front →
      (applyFuncJumps ft ctx (tuneFuncJumps ft ctx pdlm 0).1 w₃).1.mem.read (entryOf ctx fj) 8 =
        if Encodable (entryOf ctx fj) (destOf pdlm fj) then
          jumpBytes (entryOf ctx fj) (destOf pdlm fj) else jmpqTemplate 8) ∧
    (¬ Written ft ctx pdlm w₃.nwrite front →
      (applyFuncJumps ft ctx (tuneFuncJumps ft ctx pdlm 0).1 w₃).1.mem.read (entryOf ctx fj) 8 =
        w₃.mem.read (entryOf ctx fj) 8) := by
  rcases Bool.eq_false_or_eq_true ctx.dryRun with hdry | hdry
  · rw [applyFuncJumps_dry hdry]
    refine ⟨fun hw => ?_, fun _ => rfl⟩
    rw [hw.dryRun] at hdry
    cases hdry
  have hall : ∀ a ∈ front ++ fj :: back, a ∈ ctx.pi.funcJumps := by
    rw [hsplit]
    exact fun a ha => ha
  obtain ⟨hfront, hrest⟩ := List.forall_mem_append.mp hall
  obtain ⟨hfj, hback⟩ := List.forall_mem_cons.mp hrest
  obtain ⟨hapf, hapb⟩ := h.apart_of_split hsplit
  have hworld : (applyFuncJumps ft ctx (tuneFuncJumps ft ctx pdlm 0).1 w₃).1 =
      (Loop.each (fun a => processWriteData ft a.funcAddr a.funcJump)
        (Loop.eachSafe (tunePatchFuncJump ft ctx.targetDlm pdlm)
          (front ++ fj :: back) 0).1 w₃).1 := by
    rw [applyFuncJumps_eq hdry, ← hsplit]
    rfl
  obtain ⟨hlen, hret, -⟩ := eachSafe_tune ft ctx.targetDlm pdlm front 0
  have hF : ∀ a ∈ (Loop.eachSafe (tunePatchFuncJump ft ctx.targetDlm pdlm) front 0).1,
      Apart a.funcAddr 8 (entryOf ctx fj) 8 := h.tuned_apart hfront hfj hapf
  have hwritten : Written ft ctx pdlm w₃.nwrite front ↔ TuneOk ft ctx.targetDlm pdlm 0 front ∧
      CallsOk ft.write w₃.nwrite (front.length + 1) :=
    ⟨fun hw => ⟨hw.tune, hw.calls⟩, fun hw => ⟨hdry, hw.1, hw.2⟩⟩
  rw [hworld, Loop.eachSafe_append, hwritten]
  by_cases htune : TuneOk ft ctx.targetDlm pdlm 0 front
  · rw [if_pos (hret.mpr htune), and_iff_right htune, ← hlen]
    -- the loop got to this jump, and the rest of the list is apart from it
    obtain ⟨x, hx, haddr, hjump, -⟩ := tunePatchFuncJump_spec ft ctx.targetDlm pdlm fj
      (Loop.eachSafe (tunePatchFuncJump ft ctx.targetDlm pdlm) front 0).2.1
    obtain ⟨rest, hlist, hB⟩ := h.tuned_cons hfj hback hapb hx
    have hbytes : x.funcJump = if Encodable (entryOf ctx fj) (destOf pdlm fj) then
        jumpBytes (entryOf ctx fj) (destOf pdlm fj) else jmpqTemplate 8 := hjump
    dsimp only
    rw [hlist, ← hbytes]
    exact each_write_at (g := fun a : FuncJump => (a.funcAddr, a.funcJump)) haddr hF hB
  · rw [if_neg (fun h0 => htune (hret.mp h0))]
    refine ⟨fun hw => absurd hw.1 htune, fun _ => ?_⟩
    refine each_write_apart (g := fun a : FuncJump => (a.funcAddr, a.funcJump)) ?_
    exact List.forall_mem_append.mpr ⟨hF, fun a ha => h.fresh_apart (hrest a ha) hfj⟩

/-- A function leads to its replacement exactly when its jump is done. -/
theorem Applicable.isJump_iff (hsame : SameEntries ctx w w₃) {front back : List FuncJump}
    {fj : FuncJump} (hsplit : ctx.pi.funcJumps = front ++ fj :: back) :
    IsJump
      ((applyFuncJumps ft ctx (tuneFuncJumps ft ctx pdlm 0).1 w₃).1.mem.read (entryOf ctx fj) 8)
      (entryOf ctx fj) (destOf pdlm fj) ↔ JumpDone ft ctx pdlm w₃.nwrite w front fj := by
  have hfj : fj ∈ ctx.pi.funcJumps := by rw [hsplit]; simp
  obtain ⟨hdone, hkept⟩ := @Applicable.jump_read ft ctx pdlm relas w w₃ h front back fj hsplit
  rw [JumpDone]
  by_cases hw : Written ft ctx pdlm w₃.nwrite front
  · rw [hdone hw]
    by_cases henc : Encodable (entryOf ctx fj) (destOf pdlm fj)
    · rw [if_pos henc]
      exact ⟨fun _ => .inl ⟨hw, henc⟩, fun _ => jumpBytes_isJump henc⟩
    · rw [if_neg henc]
      constructor
      · exact fun hj => absurd (encodable_of_isJump_template hj) henc
      · rintro (⟨-, he⟩ | ⟨hn, -⟩)
        · exact absurd he henc
        · exact absurd hw hn
  · rw [hkept hw, hsame fj hfj]
    exact ⟨fun hj => .inr ⟨hw, hj⟩, fun hj => (hj.resolve_left fun hl => hw hl.1).2⟩

end

/-! ## All or nothing -/

/-- A call that returns zero has put all jumps in place.  A call that fails has
changed no function and left no mapping behind, if its rollback succeeds. -/
def AllOrNothing (ft : Faults) (ctx : Ctx) (relas : List ExternSymbol × List ExternSymbol)
    (w : World) : Prop :=
  ((applyDynBinpatch ft ctx relas w).err = 0 → ∀ fj ∈ ctx.pi.funcJumps,
    IsJump ((applyDynBinpatch ft ctx relas w).world.mem.read (entryOf ctx fj) 8) (entryOf ctx fj)
      (destOf (loadPatch ft ctx w).1 fj)) ∧
  ((applyDynBinpatch ft ctx relas w).err ≠ 0 → (applyDynBinpatch ft ctx relas w).rollback = 0 →
    SameEntries ctx w (applyDynBinpatch ft ctx relas w).world ∧
    (applyDynBinpatch ft ctx relas w).world.vmas = w.vmas)

/-- `apply_dyn_binpatch` is all or nothing exactly when it fails before the jumps
or gets every jump done.  In a dry run only a jump that was there before is done. -/
theorem applyDynBinpatch_allOrNothing_iff {relas : List ExternSymbol × List ExternSymbol}
    {w : World} (h : Applicable ft ctx relas w) :
    AllOrNothing ft ctx relas w ↔ ∀ pdlm, Prepares ft ctx relas w pdlm →
      ∀ front fj back, ctx.pi.funcJumps = front ++ fj :: back →
        JumpDone ft ctx pdlm (writesBefore ctx relas w) w front fj := by
  rw [AllOrNothing]
  rcases applyDynBinpatch_cases h with
    ⟨pdlm, w₃, hprep, hpdlm, hunch, -, hn, herr, hworld⟩ | ⟨hno, herr, hback⟩
  · have hsame := h.sameEntries hunch
    rw [hworld, hpdlm, ← hn]
    constructor
    · rintro ⟨hjumps, -⟩ dlm hdlm front fj back hsplit
      have hfj : fj ∈ ctx.pi.funcJumps := by rw [hsplit]; simp
      rw [hdlm.loads.unique hprep.loads]
      exact (h.isJump_iff hsame hsplit).mp (hjumps herr fj hfj)
    · intro hdone
      refine ⟨fun _ fj hfj => ?_, fun hne => absurd herr hne⟩
      obtain ⟨front, back, hsplit⟩ := List.append_of_mem hfj
      exact (h.isJump_iff hsame hsplit).mpr (hdone pdlm hprep front fj back hsplit)
  · constructor
    · exact fun _ pdlm hp => absurd hp (hno pdlm)
    · exact fun _ => ⟨fun h0 => absurd h0 herr, fun _ hr => hback hr⟩

/-! ## One jump -/

/-- A shared object of two pages at `0x400000`, and a stack. -/
def smallVmas (dlm : Option Nat) : List Vma :=
  [{ addr := 0x400000, length := 0x1000, prot := 5, path := some "target.so", dlm := dlm,
     mapFile := some (.elf (twoPages 5 6)) },
   { addr := 0x401000, length := 0x1000, prot := 3, path := some "target.so", dlm := dlm,
     mapFile := some (.elf (twoPages 5 6)) }]

def smallStack : Vma := { addr := 0x800000, length := 0x1000, prot := 3 }

/-- The target is the shared object, the patch has one jump. -/
def smallCtx : Ctx :=
  { patchfile := "patch.so"
    patchEi := twoPages 5 6
    vmas := smallVmas (some 0) ++ [smallStack]
    dlMaps := []
    pi := { targetBid := "target", patchBid := "patch"
            funcJumps := [{ funcValue := 0x10, patchValue := 0x20 }] }
    targetDlm := { id := 0, path := some "target.so", vmas := smallVmas none, ei := twoPages 5 6
                   execVma := (smallVmas none).head? } }

def smallWorld : World := { mem := fun _ => 0, vmas := smallVmas none ++ [smallStack] }

theorem twoPages_patchFile : PatchFile (twoPages 5 6) where
  readable := by decide
  bytes := by decide
  bound := by decide
  ascending := by decide
  pageZero := by
    intro p hp
    cases hp
    rfl

theorem smallCtx_applicable (ft : Faults) (hsys : ∀ n, ft.sys n = 0) :
    Applicable ft smallCtx ([], []) smallWorld where
  sys := hsys
  space := ⟨by decide, by decide, by decide, by decide⟩
  target := ⟨by decide, by decide, by decide, by decide⟩
  known := by decide
  file := twoPages_patchFile
  fresh := by decide
  mapped := by decide
  pageZero := by decide
  apart := List.pairwise_singleton ..
  relocs := fun _ _ es hes => by cases hes
  refs := fun _ _ ss hss => by cases hss

/-- The patch at its place behind the target. -/
theorem smallCtx_loads (ft : Faults) (h : ft.write 0 = 0) :
    ∃ pdlm, Loads ft smallCtx smallWorld pdlm ∧ dlmLoadBase pdlm = 0x402000 :=
  ⟨_, ⟨⟨_, rfl, rfl⟩, fun _ => ⟨fun hs => absurd hs (by decide),
    callsOk_succ.mpr ⟨h, callsOk_zero _ _⟩⟩⟩, rfl⟩

/-- Without faults the jump is written. -/
theorem smallCtx_allOrNothing :
    Applicable {} smallCtx ([], []) smallWorld ∧ AllOrNothing {} smallCtx ([], []) smallWorld := by
  have happ := smallCtx_applicable {} fun _ => rfl
  refine ⟨happ, (applyDynBinpatch_allOrNothing_iff happ).mpr ?_⟩
  intro pdlm hprep front fj back hsplit
  obtain ⟨dlm, hdlm, hbase⟩ := smallCtx_loads {} rfl
  have hb : dlmLoadBase pdlm = 0x402000 := hprep.loads.unique hdlm ▸ hbase
  obtain ⟨rfl, rfl⟩ : front = [] ∧ fj = { funcValue := 0x10, patchValue := 0x20 } := by
    cases front with
    | nil => cases hsplit; exact ⟨rfl, rfl⟩
    | cons a front => simp [smallCtx] at hsplit
  have htune : TuneOk {} smallCtx.targetDlm pdlm 0 [] :=
    ⟨List.forall_mem_nil _, callsOk_zero _ _⟩
  refine .inl ⟨⟨rfl, htune, fun _ _ => rfl⟩, ?_⟩
  rw [destOf, hb]
  decide

/-- The write of the jump fails, and the call returns zero. -/
theorem lostWrite_succeeds :
    (applyDynBinpatch { write := fun n => if n = 1 then 5 else 0 } smallCtx ([], [])
      smallWorld).err =
      0 ∧
    ¬ AllOrNothing { write := fun n => if n = 1 then 5 else 0 } smallCtx ([], []) smallWorld := by
  refine ⟨rfl, fun h => ?_⟩
  have hjump := h.1 rfl _ (List.mem_cons_self ..)
  exact absurd hjump.1 (by decide)

/-- So does a dry run, which writes no jump. -/
example : ¬ AllOrNothing {} { smallCtx with dryRun := true } ([], []) smallWorld := by
  intro h
  have hjump := h.1 rfl _ (List.mem_cons_self ..)
  exact absurd hjump.1 (by decide)

end Nsb
