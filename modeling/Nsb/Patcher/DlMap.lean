import Mathlib.Data.List.SplitBy
import Nsb.Patcher.Vma
import Nsb.Patcher.X86

/-!
# Loaded objects

`patcher/dl_map.c`.  A `dl_map` is a run of mappings with the same path.
`collect_dl_maps` goes over the sorted mappings of a process and opens a new
`dl_map` whenever the path changes.

`first_dl_vma` of an empty `dl_map` is NULL and `dl_map_start` would follow it.
No `dl_map` of the source is empty when its start is taken.  The model gives
zero there, and also for the base of a shared object without an executable
mapping.
-/

namespace Nsb

/-- `first_dl_vma`. -/
def firstDlVma (dlm : DlMap) : Option Vma := dlm.vmas.head?

/-- `last_dl_vma`. -/
def lastDlVma (dlm : DlMap) : Option Vma := dlm.vmas.getLast?

/-- `dl_map_start`. -/
def dlMapStart (dlm : DlMap) : Addr := ((firstDlVma dlm).map vmaStart).getD 0

/-- `dl_map_end`. -/
def dlMapEnd (dlm : DlMap) : Addr := ((lastDlVma dlm).map vmaEnd).getD 0

/-- `dlm_load_base`. -/
def dlmLoadBase (dlm : DlMap) : Addr :=
  if elfTypeDyn dlm.ei then (dlm.execVma.map vmaStart).getD 0 else 0

/-- `alloc_dl_map`. -/
def allocDlMap (id : Nat) (ei : ElfInfo) (path : Option String) : DlMap :=
  { id := id, path := path, ei := ei }

/-! ## Collecting -/

/-- `add_dl_vma_sorted`: the object after the call, and the return code. -/
def addDlVmaCall (dlm : DlMap) (vma : Vma) : DlMap × Int :=
  if isExec vma && dlm.execVma.isSome then (dlm, -EINVAL)
  else
    let dlm := { dlm with execVma := if isExec vma then some vma else dlm.execVma }
    match addVmaSorted dlm.vmas vma with
    | .ok vmas => ({ dlm with vmas := vmas }, 0)
    | .error err => (dlm, err)

/-- The object behind a call of `add_dl_vma_sorted` that returns zero. -/
def addDlVmaSorted (dlm : DlMap) (vma : Vma) : Except Int DlMap :=
  let (dlm, err) := addDlVmaCall dlm vma
  if err = 0 then .ok dlm else .error err

theorem addDlVmaSorted_eq (dlm : DlMap) (vma : Vma) :
    addDlVmaSorted dlm vma =
      if isExec vma && dlm.execVma.isSome then .error (-EINVAL)
      else (addVmaSorted dlm.vmas vma).map fun vmas =>
        { dlm with vmas := vmas, execVma := if isExec vma then some vma else dlm.execVma } := by
  rw [addDlVmaSorted, addDlVmaCall]
  cases isExec vma && dlm.execVma.isSome with
  | true => rfl
  | false =>
      cases hadd : addVmaSorted dlm.vmas vma with
      | ok vmas => simp [hadd, Except.map]
      | error err => simp [hadd, Except.map, addVmaSorted_error hadd]

/-- `create_dl_map_by_vma`. -/
def createDlMapByVma (id : Nat) (vma : Vma) (file : MapFile) : Except Int DlMap :=
  (elfCreateInfo file).map fun ei => allocDlMap id ei vma.path

/-- The object of `dl_info` that a mapping is added to, and the objects in front
of it: the last one if the path is its path, a new one otherwise. -/
def dlMapFor (vma : Vma) (file : MapFile) (head : List DlMap) :
    Except Int (List DlMap × DlMap) :=
  match head.getLast? with
  | some dlm =>
      if dlm.path = vma.path then .ok (head.dropLast, dlm)
      else (createDlMapByVma head.length vma file).map (head, ·)
  | none => (createDlMapByVma head.length vma file).map (head, ·)

/-- `collect_dl_map_vma`: `head` are the objects so far, `dl_info->dlm` the last
of them. -/
def collectDlMapVma (vma : Vma) (head : List DlMap) : Option Vma × List DlMap × Int :=
  match vma.mapFile with
  | none => (some vma, head, 0)
  | some file =>
      if !isElfFile file then (some vma, head, 0)
      else
        match dlMapFor vma file head with
        | .error err => (some vma, head, err)
        | .ok (front, dlm) =>
            match addDlVmaSorted dlm vma with
            | .error err => (some { vma with dlm := some dlm.id }, front ++ [dlm], err)
            | .ok dlm' => (some { vma with dlm := some dlm.id }, front ++ [dlm'], 0)

/-- `collect_dl_maps`: the mappings with their link to the object, the objects,
and the return code. -/
def collectDlMaps (vmas : List Vma) : List Vma × List DlMap × Int :=
  Loop.eachSafe collectDlMapVma vmas []

/-- `compare_bid`. -/
def compareBid (bid : String) (dlm : DlMap) : Bool := dlm.ei.bid == some bid

/-- `find_dl_map_by_bid`. -/
def findDlMapByBid (dlMaps : List DlMap) (bid : String) : Option DlMap :=
  dlMaps.find? (compareBid bid)

/-- The object behind the link of a mapping. -/
def dlmOf (dlMaps : List DlMap) (vma : Vma) : Option DlMap :=
  vma.dlm.bind fun id => dlMaps.find? fun dlm => dlm.id == id

/-! ## The jump range -/

/-- `dl_map_jump_hint`. -/
def dlMapJumpHint (dlm : DlMap) : Addr :=
  if !elfTypeDyn dlm.ei then dlMapEnd dlm else x86JumpMinAddress (dlMapEnd dlm)

/-- `dl_map_check_jump_range`. -/
def dlMapCheckJumpRange (dlm : DlMap) (base : Addr) : Int :=
  if base < x86JumpMinAddress (dlMapEnd dlm) then -ERANGE
  else if base > x86JumpMaxAddress (dlMapStart dlm) then -ERANGE
  else 0

/-- What the check compares: the end of the object is at most 2 GB above an
address that passes, and its start at most 2 GB below. -/
theorem dlMapCheckJumpRange_eq_zero {dlm : DlMap} {base : Addr}
    (h : dlMapCheckJumpRange dlm base = 0) :
    (dlMapEnd dlm).toNat ≤ base.toNat + 2 ^ 31 ∧
      base.toNat ≤ ((dlMapStart dlm).toNat + 2 ^ 31) % 2 ^ 64 := by
  have hrange : X86_64_JUMP_RANGE.toNat = 2 ^ 31 := rfl
  rw [dlMapCheckJumpRange] at h
  split at h
  · cases h
  · rename_i hmin
    split at h
    · cases h
    · rename_i hmax
      have hmin := BitVec.not_lt.mp hmin
      have hmax := BitVec.not_lt.mp hmax
      rw [x86JumpMaxAddress, BitVec.le_def, BitVec.toNat_add, hrange] at hmax
      refine ⟨?_, hmax⟩
      rw [x86JumpMinAddress, BitVec.le_def] at hmin
      split at hmin
      · rename_i hgt
        rw [gt_iff_lt, BitVec.lt_def] at hgt
        rw [BitVec.toNat_sub_of_le (BitVec.le_of_lt hgt)] at hmin
        omega
      · rename_i hgt
        rw [gt_iff_lt, BitVec.lt_def] at hgt
        omega

/-- From every entry of eight bytes in the object there is a jump to every address
of a hole whose two ends passed the check. -/
theorem encodable_of_checked {dlm : DlMap} {hole size f p : BitVec 64}
    (h1 : dlMapCheckJumpRange dlm hole = 0) (h2 : dlMapCheckJumpRange dlm (hole + size) = 0)
    (hf : dlMapStart dlm ≤ f) (hf8 : f.toNat + 8 ≤ (dlMapEnd dlm).toNat) (hp : hole ≤ p)
    (hp' : p < hole + size) : Encodable f p := by
  obtain ⟨hend, hstart⟩ := dlMapCheckJumpRange_eq_zero h1
  obtain ⟨-, hstart'⟩ := dlMapCheckJumpRange_eq_zero h2
  rw [BitVec.le_def] at hf hp
  rw [BitVec.lt_def] at hp'
  -- a start so high that the sum wraps around would be above the end
  have hwrap : (dlMapStart dlm).toNat + 2 ^ 31 < 2 ^ 64 := by omega
  rw [Nat.mod_eq_of_lt hwrap] at hstart'
  have hnext : (f + 5).toNat = f.toNat + 5 := by
    have hlt := (dlMapEnd dlm).isLt
    rw [BitVec.toNat_add, Nat.mod_eq_of_lt]
    · rfl
    · show f.toNat + 5 < 2 ^ 64
      omega
  have hplt := p.isLt
  rw [Encodable, jumpDistance, BitVec.toInt_sub, BitVec.toInt_eq_toNat_bmod,
    BitVec.toInt_eq_toNat_bmod, hnext, Int.bmod_sub_bmod, Int.sub_bmod_bmod]
  rw [Int.bmod_eq_of_le (by omega) (by omega)]
  omega

/-- A hole that `pin_elf_mmaps` accepts is in reach of every function of the
target. -/
theorem checkedHole_reachable {dlm : DlMap} {hole loadSize f p : BitVec 64} (buf : Word)
    (h1 : dlMapCheckJumpRange dlm hole = 0) (h2 : dlMapCheckJumpRange dlm (hole + loadSize) = 0)
    (hf : dlMapStart dlm ≤ f) (hf8 : f.toNat + 8 ≤ (dlMapEnd dlm).toNat) (hp : hole ≤ p)
    (hp' : p < hole + loadSize) : 0 ≤ (x86JmpqInstruction buf f p).2 :=
  (x86JmpqInstruction_ok_iff buf f p).mpr (encodable_of_checked h1 h2 hf hf8 hp hp')

/-- An object of one page just below 5 GB. -/
def onePageTarget : DlMap :=
  { id := 0, path := none, vmas := [⟨0x13ffff000, 0x1000, 2, 5, 0, none, none, none⟩], ei := {} }

theorem onePageTarget_reachable :
    0 ≤ (x86JmpqInstruction (Vector.replicate 8 0) 0x13ffffff8 0xc0000000).2 :=
  @checkedHole_reachable onePageTarget 0xc0000000 0x1000 0x13ffffff8 0xc0000000 _ (by decide)
    (by decide) (by decide) (by decide) (by decide) (by decide)

/-! ## What every object satisfies -/

/-- The mappings of an object are sorted, and `exec_vma` is the only executable
one of them. -/
structure DlMapOk (dlm : DlMap) : Prop where
  sorted : VmaSorted dlm.vmas
  exec : ∀ v, dlm.execVma = some v ↔ v ∈ dlm.vmas ∧ isExec v = true

theorem allocDlMap_ok (id : Nat) (ei : ElfInfo) (path : Option String) :
    DlMapOk (allocDlMap id ei path) :=
  ⟨List.Pairwise.nil, fun v => by simp [allocDlMap]⟩

theorem DlMapOk.isSome_execVma {dlm : DlMap} (h : DlMapOk dlm) :
    dlm.execVma.isSome = true ↔ ∃ u ∈ dlm.vmas, isExec u = true := by
  rw [Option.isSome_iff_exists]
  constructor
  · rintro ⟨u, hu⟩
    exact ⟨u, (h.exec u).mp hu⟩
  · rintro ⟨u, hu⟩
    exact ⟨u, (h.exec u).mpr hu⟩

/-- The object with one mapping more, which is the first executable one if it is
executable. -/
theorem DlMapOk.insert {dlm : DlMap} (h : DlMapOk dlm) {vma : Vma} {l : List Vma}
    (hperm : l.Perm (vma :: dlm.vmas)) (hs : VmaSorted l)
    (hfirst : ¬ (isExec vma = true ∧ ∃ u ∈ dlm.vmas, isExec u = true)) :
    DlMapOk
      { dlm with vmas := l, execVma := if isExec vma then some vma else dlm.execVma } := by
  refine ⟨hs, fun v => ?_⟩
  dsimp only
  rw [hperm.mem_iff, List.mem_cons]
  by_cases he : isExec vma = true
  · rw [if_pos he, Option.some.injEq]
    constructor
    · rintro rfl
      exact ⟨.inl rfl, he⟩
    · rintro ⟨rfl | hv, hve⟩
      · rfl
      · exact absurd ⟨he, v, hv, hve⟩ hfirst
  · rw [if_neg he, h.exec v]
    constructor
    · exact fun ⟨hv, hve⟩ => ⟨.inr hv, hve⟩
    · rintro ⟨rfl | hv, hve⟩
      · exact absurd hve he
      · exact ⟨hv, hve⟩

/-- A call adds the mapping and nothing else, or it is the second executable one and
the call returns `-EINVAL` and changes nothing. -/
theorem addDlVmaCall_cases {dlm : DlMap} (h : DlMapOk dlm) (vma : Vma) :
    (¬ (isExec vma = true ∧ ∃ u ∈ dlm.vmas, isExec u = true) ∧
      ∃ dlm', addDlVmaCall dlm vma = (dlm', 0) ∧ DlMapOk dlm' ∧
        dlm'.vmas.Perm (vma :: dlm.vmas) ∧ dlm'.ei = dlm.ei) ∨
    (isExec vma = true ∧ ∃ u ∈ dlm.vmas, isExec u = true) ∧
      addDlVmaCall dlm vma = (dlm, -EINVAL) := by
  have hsecond : (isExec vma && dlm.execVma.isSome) = true ↔
      isExec vma = true ∧ ∃ u ∈ dlm.vmas, isExec u = true := by
    rw [Bool.and_eq_true, h.isSome_execVma]
  rw [addDlVmaCall]
  split
  next hx => exact .inr ⟨hsecond.mp hx, rfl⟩
  next hx =>
    obtain ⟨l', hl', hperm, hs⟩ := addVmaSorted_sorted h.sorted vma
    have hfirst := fun hboth => hx (hsecond.mpr hboth)
    dsimp only
    rw [hl']
    exact .inl ⟨hfirst, _, rfl, h.insert hperm hs hfirst, hperm, rfl⟩

/-- `add_dl_vma_sorted` adds the mapping and nothing else. -/
theorem addDlVmaSorted_ok {dlm dlm' : DlMap} {vma : Vma} (h : DlMapOk dlm)
    (ha : addDlVmaSorted dlm vma = .ok dlm') :
    DlMapOk dlm' ∧ dlm'.vmas.Perm (vma :: dlm.vmas) ∧ dlm'.ei = dlm.ei := by
  rw [addDlVmaSorted] at ha
  rcases addDlVmaCall_cases h vma with ⟨-, d, hcall, hok⟩ | ⟨-, hcall⟩
  · rw [hcall] at ha
    cases ha
    exact hok
  · rw [hcall] at ha
    simp [EINVAL] at ha

theorem addDlVmaSorted_error_ne_zero {dlm : DlMap} {vma : Vma} {err : Int}
    (h : addDlVmaSorted dlm vma = .error err) : err ≠ 0 := by
  rw [addDlVmaSorted] at h
  dsimp only at h
  split at h
  · cases h
  next hne =>
    cases h
    exact hne

theorem dlMapFor_ok {vma : Vma} {file : MapFile} {head front : List DlMap} {dlm : DlMap}
    (h : ∀ d ∈ head, DlMapOk d) (hd : dlMapFor vma file head = .ok (front, dlm)) :
    (∀ d ∈ front, DlMapOk d) ∧ DlMapOk dlm := by
  have hnew : ∀ {d : DlMap}, createDlMapByVma head.length vma file = .ok d → DlMapOk d := by
    intro d hc
    rw [createDlMapByVma] at hc
    cases hf : elfCreateInfo file with
    | error err => rw [hf] at hc; cases hc
    | ok ei => rw [hf] at hc; cases hc; exact allocDlMap_ok ..
  have hopen : (createDlMapByVma head.length vma file).map (head, ·) = .ok (front, dlm) →
      (∀ d ∈ front, DlMapOk d) ∧ DlMapOk dlm := by
    intro hm
    cases hc : createDlMapByVma head.length vma file with
    | error err => rw [hc] at hm; cases hm
    | ok d => rw [hc] at hm; cases hm; exact ⟨h, hnew hc⟩
  rw [dlMapFor] at hd
  cases hlast : head.getLast? with
  | none => rw [hlast] at hd; exact hopen hd
  | some last =>
      rw [hlast] at hd
      dsimp only at hd
      by_cases hp : last.path = vma.path
      · rw [if_pos hp] at hd
        cases hd
        exact ⟨fun d hd => h d (List.dropLast_subset _ hd), h _ (List.mem_of_getLast? hlast)⟩
      · rw [if_neg hp] at hd
        exact hopen hd

theorem collectDlMapVma_ok (vma : Vma) (head : List DlMap) (h : ∀ d ∈ head, DlMapOk d) :
    ∀ d ∈ (collectDlMapVma vma head).2.1, DlMapOk d := by
  rw [collectDlMapVma]
  cases vma.mapFile with
  | none => exact h
  | some file =>
      dsimp only
      by_cases hf : (!isElfFile file) = true
      · rw [if_pos hf]
        exact h
      · rw [if_neg hf]
        cases hd : dlMapFor vma file head with
        | error err => exact h
        | ok p =>
            obtain ⟨front, dlm⟩ := p
            obtain ⟨hfront, hdlm⟩ := dlMapFor_ok h hd
            dsimp only
            cases ha : addDlVmaSorted dlm vma with
            | error err =>
                exact List.forall_mem_append.mpr ⟨hfront, List.forall_mem_singleton.mpr hdlm⟩
            | ok dlm' =>
                exact List.forall_mem_append.mpr
                  ⟨hfront, List.forall_mem_singleton.mpr (addDlVmaSorted_ok hdlm ha).1⟩

/-- Every object that `collect_dl_maps` builds is sorted and knows its
executable mapping. -/
theorem collectDlMaps_ok (vmas : List Vma) : ∀ d ∈ (collectDlMaps vmas).2.1, DlMapOk d :=
  Loop.eachSafe_inv (I := fun head => ∀ d ∈ head, DlMapOk d) collectDlMapVma_ok
    (fun d hd => by cases hd)

/-! ## Runs of insertions -/

/-- A sequence of calls of `add_dl_vma_sorted` with their return codes. -/
def addDlVmaCalls (dlm : DlMap) : List Vma → DlMap × List Int
  | [] => (dlm, [])
  | vma :: vmas =>
      let (dlm, ret) := addDlVmaCall dlm vma
      let (dlm, rets) := addDlVmaCalls dlm vmas
      (dlm, ret :: rets)

/-- The mappings whose call returned zero. -/
def addedVmas (vmas : List Vma) (rets : List Int) : List Vma :=
  ((vmas.zip rets).filter fun call => call.2 = 0).map Prod.fst

theorem addedVmas_cons_of_eq {vma : Vma} {vmas : List Vma} {ret : Int} {rets : List Int}
    (h : ret = 0) : addedVmas (vma :: vmas) (ret :: rets) = vma :: addedVmas vmas rets := by
  rw [addedVmas, List.zip_cons_cons, List.filter_cons_of_pos (by simpa using h)]
  rfl

theorem addedVmas_cons_of_ne {vma : Vma} {vmas : List Vma} {ret : Int} {rets : List Int}
    (h : ret ≠ 0) : addedVmas (vma :: vmas) (ret :: rets) = addedVmas vmas rets := by
  rw [addedVmas, List.zip_cons_cons, List.filter_cons_of_neg (by simpa using h)]
  rfl

/-- A sequence of calls keeps the object well formed, and it holds the mappings of the
calls that returned zero.  A call returns zero or `-EINVAL`. -/
theorem addDlVmaCalls_ok {dlm : DlMap} (h : DlMapOk dlm) (vmas : List Vma) :
    DlMapOk (addDlVmaCalls dlm vmas).1 ∧
      (addDlVmaCalls dlm vmas).1.vmas.Perm
        (addedVmas vmas (addDlVmaCalls dlm vmas).2 ++ dlm.vmas) ∧
      ∀ ret ∈ (addDlVmaCalls dlm vmas).2, ret = 0 ∨ ret = -EINVAL := by
  induction vmas generalizing dlm with
  | nil => exact ⟨h, .refl _, fun _ hret => nomatch hret⟩
  | cons vma vmas induction =>
      rw [addDlVmaCalls]
      rcases addDlVmaCall_cases h vma with ⟨-, dlm', hcall, hok, hperm, -⟩ | ⟨-, hcall⟩
      · obtain ⟨hkeeps, hall, hrets⟩ := induction hok
        rw [hcall]
        dsimp only
        rw [addedVmas_cons_of_eq rfl, List.forall_mem_cons]
        refine ⟨hkeeps, hall.trans ?_, .inl rfl, hrets⟩
        exact (hperm.append_left _).trans List.perm_middle
      · obtain ⟨hkeeps, hall, hrets⟩ := induction h
        rw [hcall]
        dsimp only
        rw [addedVmas_cons_of_ne (by simp [EINVAL]), List.forall_mem_cons]
        exact ⟨hkeeps, hall, .inr rfl, hrets⟩

/-- The call returns zero unless the mapping is a second executable one. -/
theorem addDlVmaCall_eq_zero_iff {dlm : DlMap} (h : DlMapOk dlm) (vma : Vma) :
    (addDlVmaCall dlm vma).2 = 0 ↔ (isExec vma = true → ∀ u ∈ dlm.vmas, isExec u = false) := by
  have hfirst : (isExec vma = true → ∀ u ∈ dlm.vmas, isExec u = false) ↔
      ¬ (isExec vma = true ∧ ∃ u ∈ dlm.vmas, isExec u = true) := by
    simp
  rw [hfirst]
  rcases addDlVmaCall_cases h vma with ⟨hno, dlm', hcall, -⟩ | ⟨hyes, hcall⟩
  · rw [hcall]
    exact iff_of_true rfl hno
  · rw [hcall]
    exact iff_of_false (by simp [EINVAL]) (not_not_intro hyes)

theorem addedVmas_of_forall {vmas : List Vma} {rets : List Int} (hlen : rets.length = vmas.length)
    (h : ∀ ret ∈ rets, ret = 0) : addedVmas vmas rets = vmas := by
  induction vmas generalizing rets with
  | nil => rfl
  | cons vma vmas induction =>
      cases rets with
      | nil => cases hlen
      | cons ret rets =>
          rw [List.forall_mem_cons] at h
          rw [addedVmas_cons_of_eq h.1, induction (Nat.succ.inj hlen) h.2]

theorem length_addDlVmaCalls (dlm : DlMap) (vmas : List Vma) :
    (addDlVmaCalls dlm vmas).2.length = vmas.length := by
  induction vmas generalizing dlm with
  | nil => rfl
  | cons vma vmas induction => exact congrArg (· + 1) (induction _)

/-- Sorted insertion keeps every mapping, into a list and into a new object.  A call of
`add_dl_vma_sorted` returns zero unless the mapping and one that was added are both
executable, and `-EFAULT` is never returned. -/
theorem sorted_insertion_keeps (from_ to_ : List Vma) (hto : VmaSorted to_) :
    (∃ l', spliceVmaLists from_ to_ = ([], l', 0) ∧ VmaSorted l' ∧ l'.Perm (from_ ++ to_)) ∧
      ∀ (id : Nat) (ei : ElfInfo) (path : Option String) (vmas : List Vma),
        VmaSorted (addDlVmaCalls (allocDlMap id ei path) vmas).1.vmas ∧
        (addDlVmaCalls (allocDlMap id ei path) vmas).1.vmas.Perm
          (addedVmas vmas (addDlVmaCalls (allocDlMap id ei path) vmas).2) ∧
        ((∀ ret ∈ (addDlVmaCalls (allocDlMap id ei path) vmas).2, ret = 0) →
          (addDlVmaCalls (allocDlMap id ei path) vmas).1.vmas.Perm vmas) ∧
        (∀ vma, (addDlVmaCall (addDlVmaCalls (allocDlMap id ei path) vmas).1 vma).2 = 0 ↔
          (isExec vma = true →
            ∀ u ∈ addedVmas vmas (addDlVmaCalls (allocDlMap id ei path) vmas).2,
              isExec u = false)) ∧
        -EFAULT ∉ (addDlVmaCalls (allocDlMap id ei path) vmas).2 := by
  constructor
  · obtain ⟨l', hsplice, hperm, hs⟩ := spliceVmaLists_sorted from_ hto
    exact ⟨l', hsplice, hs, hperm⟩
  · intro id ei path vmas
    obtain ⟨hok, hperm, hrets⟩ := addDlVmaCalls_ok (allocDlMap_ok id ei path) vmas
    rw [show (allocDlMap id ei path).vmas = [] from rfl, List.append_nil] at hperm
    refine ⟨hok.sorted, hperm, fun hzero => ?_, fun vma => ?_, fun hfault => ?_⟩
    · rwa [addedVmas_of_forall (length_addDlVmaCalls _ _) hzero] at hperm
    · rw [addDlVmaCall_eq_zero_iff hok]
      simp only [hperm.mem_iff]
    · rcases hrets _ hfault with heq | heq
      · simp [EFAULT] at heq
      · simp [EFAULT, EINVAL] at heq

/-- A mapping of one page. -/
def pageVma (addr : Addr) (prot : BitVec 32) : Vma :=
  ⟨addr, 0x1000, 2, prot, 0, none, none, none⟩

/-- Two mappings of one start are both kept.  An object takes a mapping of code and one
of data below it, and no second one of code. -/
theorem sorted_insertion_equal_starts :
    (∃ l', spliceVmaLists [pageVma 0x2000 1] [pageVma 0x1000 1, pageVma 0x2000 3] = ([], l', 0) ∧
      l'.length = 3) ∧
    VmaSorted (addDlVmaCalls (allocDlMap 0 {} none) [pageVma 0x2000 5, pageVma 0x1000 1]).1.vmas ∧
    (addDlVmaCalls (allocDlMap 0 {} none) [pageVma 0x2000 5, pageVma 0x1000 1]).1.vmas.Perm
      [pageVma 0x2000 5, pageVma 0x1000 1] ∧
    (addDlVmaCall (addDlVmaCalls (allocDlMap 0 {} none)
      [pageVma 0x2000 5, pageVma 0x1000 1]).1 (pageVma 0x3000 5)).2 ≠ 0 := by
  obtain ⟨⟨l', hsplice, -, hperm⟩, hcalls⟩ := sorted_insertion_keeps [pageVma 0x2000 1]
    [pageVma 0x1000 1, pageVma 0x2000 3] (by simp [VmaSorted, pageVma])
  obtain ⟨hsorted, -, hall, hzero, -⟩ := hcalls 0 {} none [pageVma 0x2000 5, pageVma 0x1000 1]
  have hrets : ∀ ret ∈ (addDlVmaCalls (allocDlMap 0 {} none)
      [pageVma 0x2000 5, pageVma 0x1000 1]).2, ret = 0 := by decide
  refine ⟨⟨l', hsplice, hperm.length_eq⟩, hsorted, hall hrets, fun hret => ?_⟩
  rw [addedVmas_of_forall rfl hrets] at hzero
  have hdata := (hzero (pageVma 0x3000 5)).mp hret rfl _ List.mem_cons_self
  cases hdata

end Nsb
