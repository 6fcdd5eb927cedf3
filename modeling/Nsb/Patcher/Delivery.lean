import Nsb.Patcher.History
import Nsb.Patcher.Protobuf

/-!
# From the symbols of a patch to the code of a process

The generator turns the definitions of a patch into jumps, the message carries the
jumps to the patcher, and the patcher writes them into a process.  `Delivered` is a
process together with the file of its target and patches that were generated for that
file.  It supposes of the message only that it is unpacked as it was packed.

`runs_redirect` joins the three.  After any sequence of runs that put every patch
behind those it has functions in common with, a function of the target leads to the
symbol of the latest patch that defines one for it, and has its own code when none
does.  The jumps start from different functions since no two definitions stand for
one, and they do not overlap since the generator refuses functions that are too short.
-/

namespace Nsb

/-! ## Generated patches -/

/-- A symbol of a patch defines a function for an address of a target. -/
structure DefinesAt (t : Target) (bf : BinFile PatchElf) (addr : Nat) (sym : PatchSym) : Prop where
  read : ∃ syms, bf.elf.readPatch = .ok syms ∧ sym ∈ syms
  isDef : sym.isDef = true
  addr_eq : sym.symbol.addrIn t = some addr

/-- A file with a `vzpatch` section that has the message of a patch.  `serialize` and
`unpack` are those of the protocol buffers. -/
structure Packed (bfOld : BinFile TargetElf) (bfNew : BinFile PatchElf)
    (serialize : BinPatch.Message → List Byte) (unpack : List Byte → Option BinPatch.Message)
    (ei : ElfInfo) (msg : BinPatch.Message) : Prop where
  generated : ∃ patchfile mode, getPatchInfo bfOld bfNew patchfile mode = .ok msg
  apart : bfNew.elf.NamesApart bfOld.elf
  unpacked : unpack (serialize msg) = some msg
  section_eq : ∃ (gives : Nat → Bool) (scn : VzpatchScn) (pi : PatchInfo),
    scn.edata = some (serialize msg) ∧ scn.binpatch gives unpack = .ok pi ∧
      ei.vzpatch = some (.ok pi)

section

variable {bfOld : BinFile TargetElf} {bfNew : BinFile PatchElf}
  {serialize : BinPatch.Message → List Byte} {unpack : List Byte → Option BinPatch.Message}
  {ei : ElfInfo} {msg : BinPatch.Message} (h : Packed bfOld bfNew serialize unpack ei msg)

/-- The address of a function as the patcher has it. -/
abbrev funcOf (addr : Nat) : BitVec 64 := BitVec.ofNat 64 addr

theorem funcOf_inj {a b : Nat} (ha : a < 2 ^ 64) (hb : b < 2 ^ 64) (h : funcOf a = funcOf b) :
    a = b := by
  have htoNat := congrArg BitVec.toNat h
  rwa [BitVec.toNat_ofNat, BitVec.toNat_ofNat, Nat.mod_eq_of_lt ha, Nat.mod_eq_of_lt hb] at htoNat

include h

/-- The section is read as the message. -/
theorem Packed.vzpatch_eq : ei.vzpatch = some (.ok msg.patchInfo) := by
  obtain ⟨gives, scn, pi, hdata, hread, hei⟩ := h.section_eq
  obtain ⟨data, bp, hdata', hbp, rfl⟩ := VzpatchScn.binpatch_eq_ok hread
  cases hdata.symm.trans hdata'
  cases h.unpacked.symm.trans hbp
  exact hei

theorem Packed.jumpsOf_eq : jumpsOf ei = msg.funcJumps.map BinPatch.FuncJump.unpacked := by
  rw [jumpsOf, h.vzpatch_eq]
  rfl

/-- What the patcher finds to jump from is what the symbols of the patch stand for. -/
theorem Packed.jumps : ∃ st, bfOld.elf.defSymTab = .ok st ∧
    (∀ fj ∈ jumpsOf ei, ∃ sym addr bfj, DefinesAt bfOld.elf.target bfNew addr sym ∧
      JumpOf st sym addr bfj ∧ MIN_FUNC_SIZE ≤ bfj.funcSize ∧ fj = bfj.unpacked) ∧
    ∀ sym addr, DefinesAt bfOld.elf.target bfNew addr sym →
      addr < 2 ^ 64 ∧ ∃ fj ∈ jumpsOf ei, fj.funcValue = funcOf addr := by
  obtain ⟨patchfile, mode, hgen⟩ := h.generated
  obtain ⟨syms, st, hmsg⟩ := getPatchInfo_generated hgen
  refine ⟨st, hmsg.symtab, ?_, ?_⟩
  · rw [h.jumpsOf_eq]
    refine List.forall_mem_map.mpr fun bfj hbfj => ?_
    obtain ⟨sym, hsym, hdef, addr, haddr, hjump⟩ := hmsg.jumps.1 bfj hbfj
    exact ⟨sym, addr, bfj, ⟨⟨syms, hmsg.read, hsym⟩, hdef, haddr⟩, hjump,
      hmsg.sizes bfj hbfj, rfl⟩
  · rintro sym addr ⟨⟨syms', hread, hsym⟩, hdef, haddr⟩
    cases hmsg.read.symm.trans hread
    obtain ⟨bfj, hbfj, hjump⟩ := hmsg.jumps.2 sym hsym hdef addr haddr
    refine ⟨hjump.funcValue ▸ hjump.value_lt, bfj.unpacked, ?_, ?_⟩
    · rw [h.jumpsOf_eq]
      exact List.mem_map_of_mem hbfj
    · rw [← hjump.funcValue]
      rfl

/-- A patch has a jump for a function when it defines one for it. -/
theorem Packed.coversFunc_iff {addr : Nat} (haddr : addr < 2 ^ 64) :
    coversFunc ei (funcOf addr) = true ↔ ∃ sym, DefinesAt bfOld.elf.target bfNew addr sym := by
  obtain ⟨st, -, hjumps, hdefs⟩ := h.jumps
  rw [coversFunc, List.any_eq_true]
  constructor
  · rintro ⟨fj, hfj, heq⟩
    obtain ⟨sym, a, bfj, hsym, hjump, -, rfl⟩ := hjumps fj hfj
    have hvalue : funcOf a = funcOf addr := by
      rw [← hjump.funcValue]
      exact eq_of_beq heq
    cases funcOf_inj (hjump.funcValue ▸ hjump.value_lt) haddr hvalue
    exact ⟨sym, hsym⟩
  · rintro ⟨sym, hsym⟩
    obtain ⟨-, fj, hfj, heq⟩ := hdefs sym addr hsym
    exact ⟨fj, hfj, beq_iff_eq.mpr heq⟩

/-- The jumps are for different functions. -/
theorem Packed.distinct : (jumpsOf ei).Pairwise fun a b => a.funcValue ≠ b.funcValue := by
  obtain ⟨patchfile, mode, hgen⟩ := h.generated
  obtain ⟨syms, st, hmsg⟩ := getPatchInfo_generated hgen
  have hnodup : msg.funcJumps.Pairwise fun a b => a.funcValue ≠ b.funcValue :=
    List.pairwise_map.mp (hmsg.nodup h.apart)
  rw [h.jumpsOf_eq, List.pairwise_map]
  refine hnodup.imp_of_mem fun {a b} ha hb hne heq => hne ?_
  obtain ⟨_, _, _, _, _, hjump⟩ := hmsg.jumps.1 a ha
  obtain ⟨_, _, _, _, _, hjump'⟩ := hmsg.jumps.1 b hb
  exact funcOf_inj hjump.value_lt hjump'.value_lt heq

end

/-! ## A process and its patches -/

/-- The functions that some patch has a jump for. -/
def patchedFuncs (U : Set Invocation) : Set (BitVec 64) :=
  {f | ∃ inv ∈ U, coversFunc inv.patchEi f = true}

/-- A patch file that was generated for the file of a target, and which the patcher can
map into a process and link.  `PatchOf` has the same for a patch of any origin. -/
structure Deliverable (w₀ : World) (bid : String) (target : DlMap) (bfOld : BinFile TargetElf)
    (bfNew : BinFile PatchElf) (serialize : BinPatch.Message → List Byte)
    (unpack : List Byte → Option BinPatch.Message) (inv : Invocation) : Prop where
  packed : ∃ msg, Packed bfOld bfNew serialize unpack inv.patchEi msg
  file : PatchFile inv.patchEi
  dyn : elfTypeDyn inv.patchEi = true
  exec : ∃ x ∈ loadsOf inv.patchEi.phdrs, x.exec = true
  slots : ∀ rela ∈ relaEntries inv.patchEi, InImage inv.patchEi rela.rOffset 8
  replacements : ∀ fj ∈ jumpsOf inv.patchEi, InImage inv.patchEi fj.patchValue 1
  code : ∀ fj ∈ jumpsOf inv.patchEi, codeReadable target fj = true ∧
    fileCode target fj = w₀.mem.read (dlmLoadBase target + fj.funcValue) 8
  bid_ne : inv.patchEi.bid ≠ some bid
  path_ne : ∀ v ∈ w₀.vmas, v.path ≠ some inv.patchfile

/-- A process that has a target mapped and no patch, and patches for the file of the
target: `source` is what each was generated from.  The patched functions do not
overlap in the file, and are mapped. -/
structure Delivered (w₀ : World) (bid : String) (target : DlMap) (bfOld : BinFile TargetElf)
    (source : Invocation → BinFile PatchElf) (serialize : BinPatch.Message → List Byte)
    (unpack : List Byte → Option BinPatch.Message) (U : Set Invocation) : Prop where
  space : AddressSpace w₀.vmas
  listed : ∀ v ∈ w₀.vmas, v.dlm = none
  collects : (collectDlMaps w₀.vmas).2.2 = 0
  noPatch : ∀ d ∈ (collectDlMaps w₀.vmas).2.1, d.ei.vzpatch = none
  buildId : bfOld.getBuildId = .ok (some bid)
  found : findDlMapByBid (collectDlMaps w₀.vmas).2.1 bid = some target
  inside : ∀ f ∈ patchedFuncs U, Inside target.vmas (dlmLoadBase target + f)
  pageZero : ∀ f ∈ patchedFuncs U, 8 ≤ (dlmLoadBase target + f).toNat
  ends : ∀ st, bfOld.elf.defSymTab = .ok st → ∀ s ∈ st, funcOf s.stValue ∈ patchedFuncs U →
    s.stValue + s.stSize ≤ 2 ^ 64
  disjoint : ∀ st, bfOld.elf.defSymTab = .ok st → ∀ s ∈ st, ∀ s' ∈ st,
    funcOf s.stValue ∈ patchedFuncs U → funcOf s'.stValue ∈ patchedFuncs U →
      s.stValue < s'.stValue → s.stValue + s.stSize ≤ s'.stValue
  patches : ∀ inv ∈ U,
    Deliverable w₀ bid target bfOld (source inv) serialize unpack inv
  paths : ∀ inv ∈ U, ∀ inv' ∈ U, inv.patchfile = inv'.patchfile →
    patchBidOf inv.patchEi = patchBidOf inv'.patchEi

section

variable {w₀ w : World} {bid : String} {target : DlMap} {bfOld : BinFile TargetElf}
  {source : Invocation → BinFile PatchElf} {serialize : BinPatch.Message → List Byte}
  {unpack : List Byte → Option BinPatch.Message} {U : Set Invocation} {cs : List Command}

/-- A generated patch is a patch for the target. -/
theorem Deliverable.patchOf {bfNew : BinFile PatchElf} {inv : Invocation}
    (h : Deliverable w₀ bid target bfOld bfNew serialize unpack inv)
    (hbid : bfOld.getBuildId = .ok (some bid)) (hinv : inv ∈ U) :
    PatchOf w₀ bid target (patchedFuncs U) inv := by
  obtain ⟨msg, hpacked⟩ := h.packed
  obtain ⟨patchfile, mode, hgen⟩ := hpacked.generated
  obtain ⟨syms, st, hmsg⟩ := getPatchInfo_generated hgen
  have htarget : msg.oldBid = bid := by
    cases hmsg.oldBid.symm.trans hbid
    rfl
  have hstatic : msg.patchInfo.staticSyms = [] := by
    rw [BinPatch.Message.patchInfo, hmsg.static]
    rfl
  exact {
    file := h.file
    dyn := h.dyn
    exec := h.exec
    info := ⟨_, hpacked.vzpatch_eq, htarget, fun ss hss => by rw [hstatic] at hss; cases hss⟩
    slots := h.slots
    funcs := fun fj hfj => ⟨inv, hinv, List.any_eq_true.mpr ⟨fj, hfj, beq_self_eq_true _⟩⟩
    distinct := hpacked.distinct
    replacements := h.replacements
    code := h.code
    bid_ne := h.bid_ne
    path_ne := h.path_ne }

/-- An entry of the symbol table behind a patched function. -/
theorem Delivered.entry (h : Delivered w₀ bid target bfOld source serialize unpack U)
    {f : BitVec 64} (hf : f ∈ patchedFuncs U) : ∃ st, bfOld.elf.defSymTab = .ok st ∧
      ∃ s ∈ st, f = funcOf s.stValue ∧ s.stValue < 2 ^ 64 ∧ MIN_FUNC_SIZE ≤ s.stSize := by
  obtain ⟨inv, hinv, hcov⟩ := hf
  obtain ⟨msg, hpacked⟩ := (h.patches inv hinv).packed
  obtain ⟨st, hst, hjumps, -⟩ := hpacked.jumps
  obtain ⟨fj, hfj, heq⟩ := List.any_eq_true.mp hcov
  obtain ⟨sym, addr, bfj, -, hjump, hsize, rfl⟩ := hjumps fj hfj
  obtain ⟨s, hs, rfl, hsz⟩ := exists_of_getSize hjump.funcSize
  refine ⟨st, hst, s, hs, ?_, hjump.funcValue ▸ hjump.value_lt, hsz ▸ hsize⟩
  rw [← hjump.funcValue]
  exact (eq_of_beq heq).symm

/-- Two functions that lie one behind the other are apart, wherever they are mapped. -/
theorem apart_of_le {base : Addr} {a b : Nat} (h : a + 8 ≤ b) (hb : b + 8 ≤ 2 ^ 64) :
    Apart (base + funcOf a) 8 (base + funcOf b) 8 := by
  have hforward : (base + funcOf b) - (base + funcOf a) = funcOf b - funcOf a := by bv_omega
  have hback : (base + funcOf a) - (base + funcOf b) = funcOf a - funcOf b := by bv_omega
  have ha : (funcOf a).toNat = a := by
    rw [BitVec.toNat_ofNat]
    omega
  have hb' : (funcOf b).toNat = b := by
    rw [BitVec.toNat_ofNat]
    omega
  rw [Apart, hforward, hback]
  constructor <;> bv_omega

/-- The jumps of the patches do not overlap. -/
theorem Delivered.apart (h : Delivered w₀ bid target bfOld source serialize unpack U)
    {f g : BitVec 64} (hf : f ∈ patchedFuncs U) (hg : g ∈ patchedFuncs U) (hne : f ≠ g) :
    Apart (dlmLoadBase target + f) 8 (dlmLoadBase target + g) 8 := by
  obtain ⟨st, hst, s, hs, rfl, -, hsize⟩ := h.entry hf
  obtain ⟨st', hst', s', hs', rfl, -, hsize'⟩ := h.entry hg
  cases hst.symm.trans hst'
  rw [MIN_FUNC_SIZE] at hsize hsize'
  have hend := h.ends st hst s hs hf
  have hend' := h.ends st hst s' hs' hg
  rcases Nat.lt_trichotomy s.stValue s'.stValue with hlt | heq | hlt
  · have hle := h.disjoint st hst s hs s' hs' hf hg hlt
    exact apart_of_le (by omega) (by omega)
  · exact absurd (congrArg funcOf heq) hne
  · have hle := h.disjoint st hst s' hs' s hs hg hf hlt
    exact (apart_of_le (by omega) (by omega)).symm

/-- The patches of a process as the patcher finds them. -/
theorem Delivered.setting (h : Delivered w₀ bid target bfOld source serialize unpack U) :
    Setting w₀ bid target (patchedFuncs U) U where
  space := h.space
  listed := h.listed
  collects := h.collects
  noPatch := h.noPatch
  found := h.found
  inside := h.inside
  pageZero := h.pageZero
  apart := fun _ hf _ hg hne => h.apart hf hg hne
  patches := fun inv hinv => (h.patches inv hinv).patchOf h.buildId hinv
  paths := h.paths

/-- A run with patches of a set applies patches of the set. -/
theorem record_subset {applied : List Invocation} {c : Command} (h : ∀ inv ∈ applied, inv ∈ U)
    (hreg : Regular U w c) : ∀ inv ∈ record applied c, inv ∈ U := by
  cases c with
  | patch inv =>
      rw [record, List.forall_mem_append, List.forall_mem_singleton]
      exact ⟨h, hreg.1⟩
  | unpatch inv => exact fun inv' hinv' => h inv' (List.mem_filter.mp hinv').1

/-- The patches of a process are those of the runs so far. -/
theorem Setting.runs_match {F : Set (BitVec 64)} (hs : Setting w₀ bid target F U)
    (hrun : Lts.Run (Lts.Guarded Step fun w c => Regular U w c ∧ Behind w c) w₀ cs w) :
    (∃ gs as ms, Stacked w₀ target F U w gs as ms ∧ Matches ms (history cs)) ∧
      ∀ inv ∈ history cs, inv ∈ U := by
  refine hrun.inv_labels (I := fun cs w => (∃ gs as ms,
    Stacked w₀ target F U w gs as ms ∧ Matches ms (history cs)) ∧ ∀ inv ∈ history cs, inv ∈ U) ?_ ?_
  · rintro ls s c s' ⟨⟨gs, as, ms, h, hm⟩, hU⟩ ⟨⟨hreg, hbehind⟩, hstep⟩
    rw [history_snoc]
    exact ⟨h.step hs hm hreg hbehind hstep, record_subset hU hreg⟩
  · exact ⟨⟨_, [], [], hs.stacked, rfl⟩, by simp [history]⟩

/-! ## Where the functions lead -/

/-- A function leads to the symbol of a patch that is mapped. -/
def LeadsToSym (base : Addr) (w : World) (addr : Nat) (inv : Invocation) (sym : PatchSym) : Prop :=
  ∃ g ∈ groupsOf w, groupFile g = some inv.patchEi ∧ (∀ v ∈ g, v.path = some inv.patchfile) ∧
    IsJump (w.mem.read (base + funcOf addr) 8) (base + funcOf addr)
      (groupBase g + funcOf sym.stValue)

/-- The jump of a generated patch leads to the symbol that the patch defines. -/
theorem Packed.leadsToSym {bfNew : BinFile PatchElf} {msg : BinPatch.Message} {inv : Invocation}
    (h : Packed bfOld bfNew serialize unpack inv.patchEi msg) {base : Addr} {addr : Nat}
    (haddr : addr < 2 ^ 64) (hlead : LeadsTo base w (funcOf addr) inv) :
    ∃ sym, DefinesAt bfOld.elf.target bfNew addr sym ∧ LeadsToSym base w addr inv sym := by
  obtain ⟨g, hg, hfile, hpath, fj, hfj, hvalue, hjump⟩ := hlead
  obtain ⟨st, -, hjumps, -⟩ := h.jumps
  obtain ⟨sym, a, bfj, hsym, hof, -, rfl⟩ := hjumps fj hfj
  rw [BinPatch.FuncJump.unpacked, hof.funcValue] at hvalue
  cases funcOf_inj (hof.funcValue ▸ hof.value_lt) haddr hvalue
  refine ⟨sym, hsym, g, hg, hfile, hpath, ?_⟩
  rw [funcOf, ← hof.patchValue]
  exact hjump

/-- After any sequence of runs that put every patch behind those it has functions in
common with, a function for which some patch defines one leads to the symbol of the
last patch applied that does, and has the code it started with when there is none. -/
theorem runs_redirect (hs : Delivered w₀ bid target bfOld source serialize unpack U)
    (hrun : Lts.Run (Lts.Guarded Step fun w c => Regular U w c ∧ Behind w c) w₀ cs w)
    {addr : Nat} (hfunc : ∃ inv ∈ U, ∃ sym, DefinesAt bfOld.elf.target (source inv) addr sym) :
    (∃ earlier inv later sym, history cs = earlier ++ inv :: later ∧
      DefinesAt bfOld.elf.target (source inv) addr sym ∧
      (∀ inv' ∈ later, ∀ sym', ¬ DefinesAt bfOld.elf.target (source inv') addr sym') ∧
      LeadsToSym (dlmLoadBase target) w addr inv sym) ∨
    (∀ inv ∈ history cs, ∀ sym, ¬ DefinesAt bfOld.elf.target (source inv) addr sym) ∧
      w.mem.read (dlmLoadBase target + funcOf addr) 8 =
        w₀.mem.read (dlmLoadBase target + funcOf addr) 8 := by
  obtain ⟨inv₀, hinv₀, sym₀, hsym₀⟩ := hfunc
  obtain ⟨msg₀, hpacked₀⟩ := (hs.patches inv₀ hinv₀).packed
  obtain ⟨-, -, -, hdefs₀⟩ := hpacked₀.jumps
  have haddr := (hdefs₀ sym₀ addr hsym₀).1
  have hf : funcOf addr ∈ patchedFuncs U :=
    ⟨inv₀, hinv₀, (hpacked₀.coversFunc_iff haddr).mpr ⟨sym₀, hsym₀⟩⟩
  obtain ⟨⟨gs, as, ms, hstacked, hmatches⟩, hU⟩ := hs.setting.runs_match hrun
  -- a patch that has no jump for the function defines none
  have hnone : ∀ inv ∈ history cs, coversFunc inv.patchEi (funcOf addr) = false →
      ∀ sym, ¬ DefinesAt bfOld.elf.target (source inv) addr sym := by
    intro inv hinv hcov sym hsym
    obtain ⟨msg, hpacked⟩ := (hs.patches inv (hU inv hinv)).packed
    rw [(hpacked.coversFunc_iff haddr).mpr ⟨sym, hsym⟩] at hcov
    cases hcov
  have hlatest := hstacked.latest hs.setting hmatches hf
  rw [Latest] at hlatest
  split at hlatest
  next hno =>
    exact .inr ⟨fun inv hinv => hnone inv hinv (Layers.top_eq_none_iff.mp hno inv hinv), hlatest⟩
  next inv hsome =>
    obtain ⟨-, earlier, later, heq, hlater⟩ := Layers.top_eq_some_iff.mp hsome
    have hinv : inv ∈ history cs := (Layers.mem_of_top hsome).1
    obtain ⟨msg, hpacked⟩ := (hs.patches inv (hU inv hinv)).packed
    obtain ⟨sym, hsym, hlead⟩ := hpacked.leadsToSym haddr hlatest
    refine .inl ⟨earlier, inv, later, sym, heq, hsym, fun inv' hinv' => ?_, hlead⟩
    refine hnone inv' ?_ (hlater inv' hinv')
    rw [heq]
    exact List.mem_append_right _ (List.mem_cons_of_mem _ hinv')

end

/-! ## A target with two functions -/

/-- The file of the target as the generator reads it. -/
def workFile : BinFile TargetElf :=
  { elf := workTarget, eType := .etDyn, notes := some [⟨true, "target"⟩], filename := "target.so" }

/-- The patch that replaces both functions. -/
def fixFile : BinFile PatchElf :=
  { elf := workPatch "rest", eType := .etDyn, notes := some [⟨true, "fix"⟩], filename := "fix.so" }

def fixMessage : BinPatch.Message :=
  { funcJumps := [⟨"work", 0x1000, 16, 0x2000, 1⟩, ⟨"rest", 0x1010, 16, 0x2010, 1⟩]
    manualSymbols := []
    globalSymbols := []
    oldBid := "target"
    newBid := "fix"
    newPath := none
    staticSymbols := [] }

/-- The message on the wire. -/
def fixBytes : List Byte :=
  [0x0a, 6, 0x74, 0x61, 0x72, 0x67, 0x65, 0x74, 0x12, 3, 0x66, 0x69, 0x78,
    0x22, 16, 0x0a, 4, 0x77, 0x6f, 0x72, 0x6b, 0x10, 0x80, 0x20, 0x18, 16, 0x20, 0x80, 0x40,
    0x28, 1,
    0x22, 16, 0x0a, 4, 0x72, 0x65, 0x73, 0x74, 0x10, 0x90, 0x20, 0x18, 16, 0x20, 0x90, 0x40,
    0x28, 1]

def fixUnpack (data : List Byte) : Option BinPatch.Message :=
  if data = fixBytes then some fixMessage else none

/-- The file of the target as the patcher reads it: two pages of code. -/
def workElf : ElfInfo :=
  { bid := some "target"
    phdrs := [some { pFlags := 5, pOffset := 0, pVaddr := 0, pFilesz := 0x2000 }]
    shdrs := [⟨0, 0⟩, ⟨0, 0⟩]
    data := fun x => if x.toNat < 0x2000 then 0x55 else 0 }

def workVmas : List Vma :=
  [{ addr := 0x400000, length := 0x2000, prot := 5, path := some "target.so"
     mapFile := some (.elf workElf) }]

def workObject : DlMap :=
  { id := 0, path := some "target.so", vmas := workVmas, ei := workElf, execVma := workVmas.head? }

def workWorld : World :=
  { mem := fun x => if 0x400000 ≤ x ∧ x < 0x402000 then 0x55 else 0
    vmas := workVmas ++ [{ addr := 0x800000, length := 0x1000, prot := 3 }] }

/-- The patch file: three pages of code and the message. -/
def fixElf : ElfInfo :=
  { bid := some "fix"
    phdrs := [some { pFlags := 5, pOffset := 0, pVaddr := 0, pFilesz := 0x3000 }]
    vzpatch := some (.ok fixMessage.patchInfo) }

def fixPatch : Invocation :=
  { patchfile := "fix.so", patchEi := fixElf, remote := 0x700000, needed := [0x400000] }

theorem fixElf_packed :
    Packed workFile fixFile (fun _ => fixBytes) fixUnpack fixElf fixMessage where
  generated := ⟨"", .manual, by decide⟩
  apart := workPatch_rest_apart.2
  unpacked := by simp [fixUnpack]
  section_eq := ⟨fun _ => true, ⟨some 61, some fixBytes⟩, _, rfl, by
    simp [VzpatchScn.binpatch, unpackProtobufBinpatch, fixUnpack]; rfl, rfl⟩

/-- The functions that the patch has a jump for. -/
theorem fixPatch_funcs {f : BitVec 64} (hf : f ∈ patchedFuncs {fixPatch}) :
    f = 0x1000 ∨ f = 0x1010 := by
  obtain ⟨inv, rfl, hcov⟩ := hf
  obtain ⟨fj, hfj, heq⟩ := List.any_eq_true.mp hcov
  obtain rfl := eq_of_beq heq
  have hjumps : jumpsOf fixPatch.patchEi =
      fixMessage.funcJumps.map BinPatch.FuncJump.unpacked := rfl
  rw [hjumps] at hfj
  simp only [fixMessage, List.map_cons, List.map_nil, List.mem_cons, List.not_mem_nil,
    or_false] at hfj
  rcases hfj with rfl | rfl
  · exact .inl rfl
  · exact .inr rfl

theorem fixPatch_deliverable :
    Deliverable workWorld "target" workObject workFile fixFile (fun _ => fixBytes) fixUnpack
      fixPatch where
  packed := ⟨fixMessage, fixElf_packed⟩
  file :=
    { readable := by simp [fixPatch, fixElf]
      bytes := List.forall_mem_singleton.mpr (by decide)
      bound := List.forall_mem_singleton.mpr (by decide)
      ascending := List.pairwise_singleton ..
      pageZero := by
        intro p hp
        cases hp
        rfl }
  dyn := rfl
  exec := ⟨_, List.mem_singleton_self _, rfl⟩
  slots := nofun
  replacements := by decide
  code := by decide
  bid_ne := by simp [fixPatch, fixElf]
  path_ne := by simp [workWorld, workVmas, fixPatch]

theorem workTarget_defSymTab :
    workTarget.defSymTab = .ok [funcEntry "work" 0x1000, funcEntry "rest" 0x1010] := rfl

theorem workWorld_delivered :
    Delivered workWorld "target" workObject workFile (fun _ => fixFile) (fun _ => fixBytes)
      fixUnpack {fixPatch} where
  space := ⟨by decide, by decide, by decide, by decide⟩
  listed := by decide
  collects := rfl
  noPatch := by
    intro d hd
    rw [List.mem_singleton.mp hd]
    rfl
  buildId := rfl
  found := rfl
  inside := by
    intro f hf
    rcases fixPatch_funcs hf with rfl | rfl
    · decide
    · decide
  pageZero := by
    intro f hf
    rcases fixPatch_funcs hf with rfl | rfl
    · decide
    · decide
  ends := by
    intro st hst s hs _
    cases workTarget_defSymTab.symm.trans hst
    have hends : ∀ s ∈ [funcEntry "work" 0x1000, funcEntry "rest" 0x1010],
      s.stValue + s.stSize ≤ 2 ^ 64 := by decide
    exact hends s hs
  disjoint := by
    intro st hst s hs s' hs' _ _
    cases workTarget_defSymTab.symm.trans hst
    have hdisjoint : ∀ s ∈ [funcEntry "work" 0x1000, funcEntry "rest" 0x1010],
      ∀ s' ∈ [funcEntry "work" 0x1000, funcEntry "rest" 0x1010],
        s.stValue < s'.stValue → s.stValue + s.stSize ≤ s'.stValue := by decide
    exact hdisjoint s hs s' hs'
  patches := by
    rintro inv rfl
    exact fixPatch_deliverable
  paths := by
    rintro inv rfl inv' rfl _
    rfl

/-- The process with the patch. -/
def fixedWorld : World := (Command.run {} (.patch fixPatch) workWorld).1

/-- The process after the patch is taken out. -/
def unfixedWorld : World := (Command.run {} (.unpatch fixPatch) fixedWorld).1

/-- The runs of a patch that is applied and taken out go through. -/
theorem fixPatch_run :
    Lts.Run (Lts.Guarded Step fun w c => Regular {fixPatch} w c ∧ Behind w c) workWorld
      [.patch fixPatch] fixedWorld := by
  have hreg : Regular {fixPatch} workWorld (.patch fixPatch) :=
    ⟨rfl, by decide, patchContext_all (by decide)⟩
  have hbehind : Behind workWorld (.patch fixPatch) := patchContext_all (by decide)
  exact Lts.Run.nil.snoc ⟨⟨hreg, hbehind⟩, rfl, Prod.ext rfl (by decide)⟩

theorem fixPatch_unrun :
    Lts.Run (Lts.Guarded Step fun w c => Regular {fixPatch} w c ∧ Behind w c) workWorld
      [.patch fixPatch, .unpatch fixPatch] unfixedWorld := by
  have hreg : Regular {fixPatch} fixedWorld (.unpatch fixPatch) := by
    show AddressSpace _
    decide +kernel
  exact fixPatch_run.snoc ⟨⟨hreg, trivial⟩, rfl, Prod.ext rfl (by decide +kernel)⟩

/-- While the patch is applied `rest` leads to the symbol that the patch defines; after
it is taken out `rest` has its code again. -/
theorem fixPatch_redirects :
    (∃ earlier inv later sym, history [.patch fixPatch] = earlier ++ inv :: later ∧
      DefinesAt workFile.elf.target fixFile 0x1010 sym ∧
      (∀ inv' ∈ later, ∀ sym', ¬ DefinesAt workFile.elf.target fixFile 0x1010 sym') ∧
      LeadsToSym (dlmLoadBase workObject) fixedWorld 0x1010 inv sym) ∧
    history [.patch fixPatch, .unpatch fixPatch] = [] ∧
      unfixedWorld.mem.read (dlmLoadBase workObject + funcOf 0x1010) 8 =
        workWorld.mem.read (dlmLoadBase workObject + funcOf 0x1010) 8 := by
  obtain ⟨sym, hsym⟩ := (fixElf_packed.coversFunc_iff (by decide)).mp
    (by decide : coversFunc fixElf (funcOf 0x1010) = true)
  have hfunc : ∃ inv ∈ ({fixPatch} : Set Invocation), ∃ sym,
      DefinesAt workFile.elf.target fixFile 0x1010 sym := ⟨fixPatch, rfl, sym, hsym⟩
  constructor
  · have hredirect := runs_redirect workWorld_delivered fixPatch_run hfunc
    refine hredirect.resolve_right fun hno => ?_
    have hmem : fixPatch ∈ history [.patch fixPatch] := by simp [history, record]
    exact hno.1 fixPatch hmem sym hsym
  · have hempty : history [.patch fixPatch, .unpatch fixPatch] = [] := by
      simp [history, record]
    refine ⟨hempty, ?_⟩
    rcases runs_redirect workWorld_delivered fixPatch_unrun hfunc with hlead | hcode
    · obtain ⟨earlier, inv, later, _, heq, -⟩ := hlead
      rw [hempty] at heq
      cases earlier <;> cases heq
    · exact hcode.2

end Nsb
