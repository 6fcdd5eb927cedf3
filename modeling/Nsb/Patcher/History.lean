import Nsb.Lib.Run
import Nsb.Patcher.Restack

/-!
# Sequences of runs

A process that is patched and unpatched again and again, by runs of nsb that do
not know of each other.  `history` is the list of patches that are applied after
a sequence of runs, and `Latest` says what a function should hold: the jump into
the last patch of the history that has it, or its own code.

`runs_keep_latest` proves this for the sequences in which every patch is put
behind the applied patches that it has functions in common with.  Nothing in nsb
makes sure of that: `process_find_place_for_elf` takes the first hole that is large
enough, and `collect_patches` takes the order of addresses for the order of
application.  In `smallPatch_forgets` a smaller patch goes into a hole in front of
a larger one, and taking it out again gives the function its own code back, with
the larger one still applied.
-/

namespace Nsb

/-! ## What a function should hold -/

/-- A function leads to its replacement in a patch that is mapped. -/
def LeadsTo (base : Addr) (w : World) (f : BitVec 64) (inv : Invocation) : Prop :=
  ∃ g ∈ groupsOf w, groupFile g = some inv.patchEi ∧ (∀ v ∈ g, v.path = some inv.patchfile) ∧
    ∃ fj ∈ jumpsOf inv.patchEi, fj.funcValue = f ∧
      IsJump (w.mem.read (base + f) 8) (base + f) (groupBase g + fj.patchValue)

/-- The last patch that is applied and has a jump for a function. -/
def latestPatch (cs : List Command) (f : BitVec 64) : Option Invocation :=
  Layers.top (fun inv f => coversFunc inv.patchEi f) f (history cs)

/-- A function leads to its replacement in the latest patch that has one, and
holds its own code if there is none. -/
def Latest (base : Addr) (w₀ : World) (cs : List Command) (w : World) (f : BitVec 64) : Prop :=
  match latestPatch cs f with
  | none => w.mem.read (base + f) 8 = w₀.mem.read (base + f) 8
  | some inv => LeadsTo base w f inv

/-! ## The runs -/

/-- A run with one of the patches in which the kernel puts the mappings of nsb to
places that are free. -/
def Regular (U : Set Invocation) (w : World) : Command → Prop
  | .patch inv => inv ∈ U ∧ AddressSpace (inv.maps w) ∧
      ∀ ctx relas, patchContext {} inv w = .ok (ctx, relas) → AddressSpace ctx.vmas
  | .unpatch inv => AddressSpace (inv.maps w)

/-- A run that puts a new patch behind the patches it has functions in common
with. -/
def Behind (w : World) : Command → Prop
  | .patch inv => ∀ ctx relas, patchContext {} inv w = .ok (ctx, relas) → InOrder ctx
  | .unpatch _ => True

section

variable {w₀ w w' : World} {bid : String} {target : DlMap} {F : Set (BitVec 64)}
  {U : Set Invocation} {gs : List (List Vma)} {as ms : List DlMap} {cs : List Command}
  (hs : Setting w₀ bid target F U)

/-- The patches of a process are those of a history. -/
def Matches (ms : List DlMap) (applied : List Invocation) : Prop :=
  ms.map (fun m => (m.path, m.ei)) = applied.map fun inv => (some inv.patchfile, inv.patchEi)

theorem Matches.concat {applied : List Invocation} (h : Matches ms applied) {m : DlMap}
    {inv : Invocation} (hpath : m.path = some inv.patchfile) (hei : m.ei = inv.patchEi) :
    Matches (ms ++ [m]) (applied ++ [inv]) := by
  rw [Matches, List.map_append, List.map_append, h]
  simp [hpath, hei]

theorem Matches.filter {applied : List Invocation} (h : Matches ms applied) (q : ElfInfo → Bool) :
    Matches (ms.filter fun m => q m.ei) (applied.filter fun inv => q inv.patchEi) := by
  have hfilter := congrArg (List.filter fun x => q x.2) h
  rw [List.filter_map, List.filter_map] at hfilter
  exact hfilter

theorem Matches.top {applied : List Invocation} (h : Matches ms applied) (f : BitVec 64) :
    (Layers.top covers f ms).map (fun m => (m.path, m.ei)) =
      (Layers.top (fun inv f => coversFunc inv.patchEi f) f applied).map
        fun inv => (some inv.patchfile, inv.patchEi) := by
  have htop := congrArg
    (Layers.top (fun (x : Option String × ElfInfo) f => coversFunc x.2 f) f) h
  rw [Layers.top_map, Layers.top_map] at htop
  exact htop

include hs

/-- At the start there is no patch. -/
theorem Setting.stacked : Stacked w₀ target F U w₀ (groupsOf w₀) [] [] := by
  have hc := collectDlMaps_collected hs.space.strictlySorted hs.collects
  have hgroups : (collectDlMaps w₀.vmas).2.1.map DlMap.vmas = groupsOf w₀ := hc.groups_eq
  have hno : ∀ g ∈ groupsOf w₀, isPatchGroup g = false := by
    rw [← hgroups]
    refine List.forall_mem_map.mpr fun d hd => ?_
    rw [isPatchGroup, hc.file_eq hd, Option.any_some, patchBidOf, hs.noPatch d hd]
    rfl
  refine ⟨hs.space, hs.listed, List.flatten_splitBy .., ?_, ?_, ?_, .refl _, .refl _, .nil, ?_⟩
  · exact List.filter_eq_self.mpr fun g hg => by rw [hno g hg]; rfl
  · exact List.filter_eq_nil_iff.mpr fun g hg => by simp [hno g hg]
  · exact fun m hm => by cases hm
  · exact fun f _ => rfl

/-- One run keeps the patches of the process and the history together. -/
theorem Stacked.step (h : Stacked w₀ target F U w gs as ms) {applied : List Invocation}
    (hm : Matches ms applied) {c : Command} (hreg : Regular U w c) (hbehind : Behind w c)
    (hstep : Step w c w') :
    ∃ gs' as' ms', Stacked w₀ target F U w' gs' as' ms' ∧ Matches ms' (record applied c) := by
  obtain ⟨hdry, hrun⟩ := hstep
  cases c with
  | patch inv =>
      obtain ⟨hinv, hspace, hfree⟩ := hreg
      obtain ⟨gs', as', m, hstacked, hpath, hei⟩ := h.patch hs hinv hspace
        (fun ctx relas hctx => ⟨hfree ctx relas hctx, hbehind ctx relas hctx⟩) hdry hrun
      exact ⟨gs', as', _, hstacked, hm.concat hpath hei⟩
  | unpatch inv =>
      obtain ⟨gs', as', hstacked⟩ := h.unpatch hs hreg hdry hrun
      exact ⟨gs', as', _, hstacked, hm.filter fun ei => patchBidOf ei != patchBidOf inv.patchEi⟩

/-- A function leads to its replacement in a patch whose jump it holds. -/
theorem Stacked.leadsTo (h : Stacked w₀ target F U w gs as ms) {f : BitVec 64} (hf : f ∈ F)
    {m : DlMap} (htop : Layers.top covers f ms = some m) {inv : Invocation}
    (hpath : m.path = some inv.patchfile) (hei : m.ei = inv.patchEi) :
    LeadsTo (dlmLoadBase target) w f inv := by
  obtain ⟨hmem, hcov⟩ := Layers.mem_of_top htop
  have hm := h.perm.mem_iff.mpr hmem
  have hmapped := h.mapped m hm
  obtain ⟨a, hpin⟩ := hmapped.pinned
  obtain ⟨fj, hfj⟩ := jumpFor_of_covers hcov
  obtain ⟨hjump, hval⟩ := jumpFor_spec hfj
  refine ⟨block m, ?_, ?_, ?_, fj, hei ▸ hjump, hval, ?_⟩
  · rw [h.groups_eq hs]
    exact (h.block_mem hm).1
  · rw [groupFile_block hmapped.nonempty, hei]
  · intro v hv
    rw [block_path hv, hpath]
  · have hbytes := h.bytes f hf
    rw [htop] at hbytes
    simp only [entryBytes, hfj] at hbytes
    have henc := hmapped.encodable fj hjump
    rw [hval] at henc
    rw [hbytes, groupBase_block hpin.ok hmapped.nonempty]
    exact jumpBytes_isJump henc

/-- A process whose patches are those of the history holds the latest jumps. -/
theorem Stacked.latest (h : Stacked w₀ target F U w gs as ms) (hm : Matches ms (history cs))
    {f : BitVec 64} (hf : f ∈ F) : Latest (dlmLoadBase target) w₀ cs w f := by
  have htop := hm.top f
  rw [Latest, latestPatch]
  cases hl : Layers.top (fun inv f => coversFunc inv.patchEi f) f (history cs) with
  | none =>
      rw [hl, Option.map_none, Option.map_eq_none_iff] at htop
      have hbytes := h.bytes f hf
      rw [htop] at hbytes
      exact hbytes
  | some inv =>
      rw [hl, Option.map_some, Option.map_eq_some_iff] at htop
      obtain ⟨m, hmtop, heq⟩ := htop
      obtain ⟨hpath, hei⟩ := Prod.mk.inj heq
      exact h.leadsTo hs hf hmtop hpath hei

/-- After a sequence of runs that put every patch behind those it has functions in
common with, every function leads to its replacement in the latest patch. -/
theorem runs_keep_latest
    (hrun : Lts.Run (Lts.Guarded Step fun w c => Regular U w c ∧ Behind w c) w₀ cs w) :
    ∀ f ∈ F, Latest (dlmLoadBase target) w₀ cs w f := by
  have hinv : ∃ gs as ms, Stacked w₀ target F U w gs as ms ∧ Matches ms (history cs) := by
    refine hrun.inv_labels (I := fun cs w => ∃ gs as ms,
      Stacked w₀ target F U w gs as ms ∧ Matches ms (history cs)) ?_ ?_
    · rintro ls s c s' ⟨gs, as, ms, h, hm⟩ ⟨⟨hreg, hbehind⟩, hstep⟩
      rw [history_snoc]
      exact h.step hs hm hreg hbehind hstep
    · exact ⟨_, [], [], hs.stacked, rfl⟩
  obtain ⟨gs, as, ms, h, hm⟩ := hinv
  exact fun f hf => h.latest hs hm hf

end

/-! ## Two patches and a hole -/

/-- The target: two pages, the first one with code. -/
def targetElf : ElfInfo :=
  { twoPages 5 6 with
    bid := some "target"
    shdrs := [⟨0, 0⟩, ⟨0, 0⟩]
    data := fun x => if x.toNat < 0x100 then 0x55 else 0 }

def targetVmas : List Vma :=
  [{ addr := 0x400000, length := 0x1000, prot := 5, path := some "target.so"
     mapFile := some (.elf targetElf) },
   { addr := 0x401000, length := 0x1000, prot := 3, path := some "target.so"
     mapFile := some (.elf targetElf) }]

def targetObject : DlMap :=
  { id := 0, path := some "target.so", vmas := targetVmas, ei := targetElf
    execVma := targetVmas.head? }

/-- The target with a hole of two pages behind it. -/
def holeWorld : World :=
  { mem := fun x => if 0x400000 ≤ x ∧ x < 0x400100 then 0x55 else 0
    vmas := targetVmas ++
      [{ addr := 0x404000, length := 0x1000, prot := 3 },
        { addr := 0x800000, length := 0x1000, prot := 3 }] }

def codeSegment : Phdr := { pFlags := 5, pOffset := 0, pVaddr := 0, pFilesz := 0x1000 }

def dataSegment (n : BitVec 64) : Phdr :=
  { pFlags := 6, pOffset := 0x1000, pVaddr := 0x1000, pFilesz := n }

/-- A patch for the function at `0x10` with a page of code and `n` bytes of data. -/
def patchElf (bid : String) (n : BitVec 64) : ElfInfo :=
  { bid := some bid
    phdrs := [some codeSegment, some (dataSegment n)]
    vzpatch := some (.ok { targetBid := "target", patchBid := bid
                           funcJumps := [{ funcValue := 0x10, patchValue := 0x20 }] }) }

/-- The larger patch does not fit into the hole. -/
def largePatch : Invocation :=
  { patchfile := "large.so", patchEi := patchElf "large" 0x2000, remote := 0x700000
    needed := [0x400000] }

def smallPatch : Invocation :=
  { patchfile := "small.so", patchEi := patchElf "small" 0x1000, remote := 0x700000
    needed := [0x400000] }

theorem patchElf_file {bid : String} {n : BitVec 64} (hn : 0 < n.toNat) (hn' : n.toNat < 2 ^ 45) :
    PatchFile (patchElf bid n) where
  readable := by simp [patchElf]
  bytes := List.forall_mem_cons.mpr ⟨by decide, List.forall_mem_singleton.mpr hn⟩
  bound := by
    refine List.forall_mem_cons.mpr ⟨by decide, List.forall_mem_singleton.mpr ?_⟩
    show 0x1000 + n.toNat < 2 ^ 46
    omega
  ascending := by
    refine List.pairwise_pair.mpr ?_
    show segStart codeSegment + segLength codeSegment ≤ (elfPageStart 0x1000).toNat
    decide
  pageZero := by
    intro p hp
    cases hp
    rfl

/-- It is a patch for the target. -/
theorem patchElf_patchOf {inv : Invocation} {bid : String} {n : BitVec 64}
    (hei : inv.patchEi = patchElf bid n) (hn : 0 < n.toNat) (hn' : n.toNat < 2 ^ 45)
    (hbid : bid ≠ "target") (hpath : inv.patchfile ≠ "target.so") :
    PatchOf holeWorld "target" targetObject {0x10} inv := by
  obtain ⟨path, ei, _, _, _, _, _⟩ := inv
  cases hei
  exact {
    file := patchElf_file hn hn'
    dyn := rfl
    exec := ⟨_, List.mem_cons_self .., rfl⟩
    info := ⟨_, rfl, rfl, fun ss hss => by cases hss⟩
    slots := fun rela hrela => by cases hrela
    funcs := List.forall_mem_singleton.mpr rfl
    distinct := List.pairwise_singleton ..
    replacements := List.forall_mem_singleton.mpr
      ⟨_, List.mem_cons_self .., rfl, _, List.mem_cons_self .., by decide, by decide⟩
    code := List.forall_mem_singleton.mpr (by decide)
    bid_ne := by simpa [patchElf] using hbid
    path_ne := by simpa [holeWorld, targetVmas] using hpath.symm }

theorem holeWorld_setting :
    Setting holeWorld "target" targetObject {0x10} {largePatch, smallPatch} where
  space := ⟨by decide, by decide, by decide, by decide⟩
  listed := by decide
  collects := rfl
  noPatch := by
    intro d hd
    rw [List.mem_singleton.mp hd]
    rfl
  found := rfl
  inside := by
    intro f hf
    rw [Set.mem_singleton_iff.mp hf]
    decide
  pageZero := by
    intro f hf
    rw [Set.mem_singleton_iff.mp hf]
    decide
  apart := by
    intro f hf g hg hne
    rw [Set.mem_singleton_iff] at hf hg
    exact absurd (hf.trans hg.symm) hne
  patches := by
    rintro inv (rfl | rfl)
    · exact patchElf_patchOf rfl (by decide) (by decide) (by decide) (by decide)
    · exact patchElf_patchOf rfl (by decide) (by decide) (by decide) (by decide)
  paths := by
    rintro inv (rfl | rfl) inv' (rfl | rfl) h
    · rfl
    · exact absurd h (by decide)
    · exact absurd h (by decide)
    · rfl

/-- The process after some commands. -/
def after (cs : List Command) : World := cs.foldl (fun w c => (c.run {} w).1) holeWorld

/-- The context of a run, if it gets that far. -/
theorem patchContext_all {P : Ctx → Prop} [DecidablePred P] {inv : Invocation} {w : World}
    (h : ((patchContext {} inv w).toOption.all fun r => decide (P r.1)) = true) :
    ∀ ctx relas, patchContext {} inv w = .ok (ctx, relas) → P ctx := by
  intro ctx relas hctx
  rw [hctx] at h
  exact of_decide_eq_true h

/-- The larger patch comes second: it is behind the smaller one. -/
def stacked : List Command := [.patch smallPatch, .patch largePatch, .unpatch largePatch]

/-- When it is taken out the function leads to the smaller one again. -/
theorem largePatch_behind :
    Lts.Run (Lts.Guarded Step fun w c => Regular {largePatch, smallPatch} w c ∧ Behind w c)
      holeWorld stacked (after stacked) ∧
    latestPatch stacked 0x10 = some smallPatch ∧
    ∀ f ∈ ({0x10} : Set (BitVec 64)),
      Latest (dlmLoadBase targetObject) holeWorld stacked (after stacked) f := by
  have h₁ : Regular {largePatch, smallPatch} (after []) (.patch smallPatch) :=
    ⟨.inr rfl, by decide, patchContext_all (by decide)⟩
  have h₂ : Regular {largePatch, smallPatch} (after [.patch smallPatch]) (.patch largePatch) :=
    ⟨.inl rfl, by decide, patchContext_all (by decide)⟩
  have h₃ : Regular {largePatch, smallPatch} (after [.patch smallPatch, .patch largePatch])
      (.unpatch largePatch) := by
    show AddressSpace _
    decide
  have hb₁ : Behind (after []) (.patch smallPatch) := patchContext_all (by decide)
  have hb₂ : Behind (after [.patch smallPatch]) (.patch largePatch) := patchContext_all (by decide)
  have hrun : Lts.Run
      (Lts.Guarded Step fun w c => Regular {largePatch, smallPatch} w c ∧ Behind w c) holeWorld
      ([] ++ [.patch smallPatch] ++ [.patch largePatch] ++ [.unpatch largePatch])
      (after stacked) :=
    ((Lts.Run.nil.snoc ⟨⟨h₁, hb₁⟩, rfl, Prod.ext rfl (by decide)⟩).snoc
      ⟨⟨h₂, hb₂⟩, rfl, Prod.ext rfl (by decide)⟩).snoc
      ⟨⟨h₃, trivial⟩, rfl, Prod.ext rfl (by decide)⟩
  exact ⟨hrun, rfl, runs_keep_latest holeWorld_setting hrun⟩

/-- The smaller patch is put into the hole, in front of the larger one, and taken
out again. -/
def forgetful : List Command := [.patch largePatch, .patch smallPatch, .unpatch smallPatch]

/-- Then the function holds its own code, and the larger patch is still applied. -/
theorem smallPatch_forgets :
    Setting holeWorld "target" targetObject {0x10} {largePatch, smallPatch} ∧
    Lts.Run (Lts.Guarded Step (Regular {largePatch, smallPatch})) holeWorld forgetful
      (after forgetful) ∧
    latestPatch forgetful 0x10 = some largePatch ∧
    ¬ Latest (dlmLoadBase targetObject) holeWorld forgetful (after forgetful) 0x10 := by
  have h₁ : Regular {largePatch, smallPatch} (after []) (.patch largePatch) :=
    ⟨.inl rfl, by decide, patchContext_all (by decide)⟩
  have h₂ : Regular {largePatch, smallPatch} (after [.patch largePatch]) (.patch smallPatch) :=
    ⟨.inr rfl, by decide, patchContext_all (by decide)⟩
  have h₃ : Regular {largePatch, smallPatch} (after [.patch largePatch, .patch smallPatch])
      (.unpatch smallPatch) := by
    show AddressSpace _
    decide
  have hrun : Lts.Run (Lts.Guarded Step (Regular {largePatch, smallPatch})) holeWorld
      ([] ++ [.patch largePatch] ++ [.patch smallPatch] ++ [.unpatch smallPatch])
        (after forgetful) :=
    ((Lts.Run.nil.snoc ⟨h₁, rfl, Prod.ext rfl (by decide)⟩).snoc
      ⟨h₂, rfl, Prod.ext rfl (by decide)⟩).snoc ⟨h₃, rfl, Prod.ext rfl (by decide)⟩
  refine ⟨holeWorld_setting, hrun, rfl, fun hlatest => ?_⟩
  obtain ⟨g, -, -, -, fj, -, -, hjump⟩ : LeadsTo (dlmLoadBase targetObject) (after forgetful) 0x10
    largePatch := hlatest
  exact absurd hjump.1 (by decide)

end Nsb
