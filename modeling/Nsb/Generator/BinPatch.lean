import Nsb.Generator.Resolve

/-!
# The message that goes into a patch

`BinPatch` of `binpatch.py` and `get_build_id` of `elffile.py`: what the generator
checks before it writes the message, and what a message that passes is known to
have.

The sizes are those of the symbols of the target.  A jump takes eight bytes, and a
function that is shorter is refused.  The message of the exception is put together
from too few values, so a `TypeError` is what the caller gets.
-/

namespace Nsb

/-! ## Files -/

/-- What keeps a patch from being generated: something is raised, or a name is used
that is not set or not defined. -/
inductive Ungenerated where
  | raised (e : Raised)
  | unboundLocalError
  | nameError
deriving DecidableEq, Repr

/-- `e_type` of the header. -/
inductive EType where
  | etDyn
  | other (text : String)
deriving DecidableEq, Repr

/-- A note: whether it is `NT_GNU_BUILD_ID`, and its descriptor. -/
structure Note where
  isBuildId : Bool
  nDesc : String
deriving DecidableEq, Repr

/-- `BinFile`.  `notes` are those of `.note.gnu.build-id`, if there is one. -/
structure BinFile (E : Type) where
  elf : E
  eType : EType
  notes : Option (List Note)
  filename : String

/-- `get_build_id`.  The text that is printed at its end has an undefined name. -/
def BinFile.getBuildId {E : Type} (bf : BinFile E) : Except Ungenerated (Option String) :=
  match bf.notes with
  | none => .ok none
  | some notes =>
      match notes.find? Note.isBuildId with
      | some note => .ok (some note.nDesc)
      | none => .error .nameError

/-! ## The message -/

/-- `StaticSym` of the message. -/
structure BinPatch.StaticSym where
  patchSize : Nat
  patchAddress : Nat
  targetValue : Nat
deriving DecidableEq, Repr

/-- `BinPatch` with all its fields. -/
structure BinPatch.Message extends BinPatch where
  oldBid : String
  newBid : String
  newPath : Option String
  staticSymbols : List BinPatch.StaticSym
deriving DecidableEq, Repr

/-- `mode`. -/
inductive Mode where
  | manual
  | auto
  | other (text : String)
deriving DecidableEq, Repr

def MIN_FUNC_SIZE : Nat := 8

/-- The loop over the jumps. -/
def BinPatch.checkSizes : List BinPatch.FuncJump → Except Ungenerated Unit
  | [] => .ok ()
  | fj :: fjs =>
      if fj.funcSize < MIN_FUNC_SIZE then .error (.raised .typeError) else BinPatch.checkSizes fjs

/-- A build ID that is stored in a required field. -/
def requiredBid (bid : Option String) : Except Ungenerated String :=
  match bid with
  | none => .error (.raised .typeError)
  | some bid => .ok bid

/-- What the modes resolve. -/
def Mode.resolve (mode : Mode) (t : TargetElf) (p : PatchElf) : Except Ungenerated BinPatch :=
  match mode with
  | .manual =>
      match p.resolve t with
      | .error e => .error (.raised e)
      | .ok bp => .ok bp
  | .auto => .error (.raised (.exception "Not implemented"))
  | .other _ => .error .unboundLocalError

/-- `BinPatch.__init__` and `get_patch_info`. -/
def getPatchInfo (bfOld : BinFile TargetElf) (bfNew : BinFile PatchElf) (patchfile : String)
    (mode : Mode) : Except Ungenerated BinPatch.Message :=
  if bfNew.eType ≠ .etDyn then
    .error (.raised (.exception "Only shared object patches are supported"))
  else do
    let bp ← mode.resolve bfOld.elf bfNew.elf
    if bp.funcJumps.isEmpty then throw (.raised (.exception "No functions to patch"))
    else do
      BinPatch.checkSizes bp.funcJumps
      let oldBid ← requiredBid (← bfOld.getBuildId)
      let newBid ← requiredBid (← bfNew.getBuildId)
      let newPath := if patchfile.isEmpty then none else some bfNew.filename
      pure { bp with oldBid, newBid, newPath, staticSymbols := [] }

/-! ## The jumps -/

theorem protoField_lt {bits n r : Nat} (h : protoField bits n = .ok r) : n < 2 ^ bits := by
  rw [protoField] at h
  split at h
  next hlt => exact hlt
  next => cases h

/-- What a jump is made of. -/
structure JumpOf (st : List SymtabEntry) (sym : PatchSym) (addr : Nat) (fj : BinPatch.FuncJump) :
    Prop where
  funcValue : fj.funcValue = addr
  patchValue : fj.patchValue = sym.stValue
  funcSize : getSize st addr = .ok fj.funcSize
  shndx : getSecIdx st addr = .ok (.index fj.shndx)
  value_lt : fj.funcValue < 2 ^ 64
  patch_lt : fj.patchValue < 2 ^ 32
  shndx_lt : fj.shndx < 2 ^ 32

theorem PatchSym.jumpOf {st : List SymtabEntry} {sym : PatchSym} {addr : Nat}
    {fj : BinPatch.FuncJump} (h : sym.funcJump st addr = .ok fj) : JumpOf st sym addr fj := by
  obtain ⟨size, hsize, h⟩ := bind_eq_ok_iff.mp h
  obtain ⟨shndx, hshndx, h⟩ := bind_eq_ok_iff.mp h
  obtain ⟨funcValue, hvalue, h⟩ := bind_eq_ok_iff.mp h
  obtain ⟨funcSize, hfield, h⟩ := bind_eq_ok_iff.mp h
  obtain ⟨secIdx, hidx, h⟩ := bind_eq_ok_iff.mp h
  obtain ⟨patchValue, hpatch, h⟩ := bind_eq_ok_iff.mp h
  cases h
  obtain rfl := protoField_eq_ok hvalue
  obtain rfl := protoField_eq_ok hfield
  obtain rfl := protoField_eq_ok hpatch
  cases shndx with
  | shnUndef => cases hidx
  | other text => cases hidx
  | index n =>
      obtain rfl := protoField_eq_ok hidx
      exact ⟨rfl, rfl, hsize, hshndx, protoField_lt hvalue, protoField_lt hpatch,
        protoField_lt hidx⟩

/-- A size is that of an entry at the address. -/
theorem exists_of_getSize {st : List SymtabEntry} {addr size : Nat}
    (h : getSize st addr = .ok size) : ∃ s ∈ st, s.stValue = addr ∧ s.stSize = size := by
  rw [getSize] at h
  split at h
  next => cases h
  next size' hsizes =>
    cases h
    have hmem : size ∈ ((st.filter fun s => s.stValue = addr).map SymtabEntry.stSize).dedup := by
      rw [hsizes]
      exact List.mem_singleton_self _
    rw [List.mem_dedup, List.mem_map] at hmem
    obtain ⟨s, hs, rfl⟩ := hmem
    obtain ⟨hst, haddr⟩ := List.mem_filter.mp hs
    exact ⟨s, hst, of_decide_eq_true haddr, rfl⟩
  next => cases h

/-- A symbol adds its jump, or it is no definition that is found and adds none. -/
theorem BinPatch.addSym_funcJumps {st : List SymtabEntry} {bp bp' : BinPatch} {sym : PatchSym}
    {addr : Option Nat} (h : bp.addSym st sym addr = .ok bp') :
    (sym.isDef = true ∧ ∃ a fj, addr = some a ∧ JumpOf st sym a fj ∧
      bp'.funcJumps = bp.funcJumps ++ [fj]) ∨
    ((sym.isDef = true → addr = none) ∧ bp'.funcJumps = bp.funcJumps) := by
  unfold BinPatch.addSym at h
  rw [PatchSym.isDef]
  cases hkind : sym.symbol.info.kind with
  | symDef =>
      rw [hkind] at h
      cases addr with
      | none =>
          cases h
          exact .inr ⟨fun _ => rfl, rfl⟩
      | some a =>
          obtain ⟨fj, hfj, h⟩ := bind_eq_ok_iff.mp h
          cases h
          exact .inl ⟨rfl, a, fj, rfl, PatchSym.jumpOf hfj, rfl⟩
  | symRef =>
      rw [hkind] at h
      refine .inr ⟨fun hdef => Bool.noConfusion hdef, ?_⟩
      cases addr with
      | none =>
          dsimp only at h
          split at h
          next => cases h
          next =>
            cases h
            rfl
      | some a =>
          obtain ⟨ms, _, h⟩ := bind_eq_ok_iff.mp h
          split at h
          next =>
            cases h
            rfl
          next =>
            cases h
            rfl

/-- The jumps of some symbols: each belongs to a definition that is found, and each
such definition has one. -/
def JumpsOf (t : Target) (st : List SymtabEntry) (syms : List PatchSym)
    (jumps : List BinPatch.FuncJump) : Prop :=
  (∀ fj ∈ jumps, ∃ sym ∈ syms, sym.isDef = true ∧ ∃ addr, sym.symbol.addrIn t = some addr ∧
    JumpOf st sym addr fj) ∧
  ∀ sym ∈ syms, sym.isDef = true → ∀ addr, sym.symbol.addrIn t = some addr →
    ∃ fj ∈ jumps, JumpOf st sym addr fj

theorem JumpsOf.append {t : Target} {st : List SymtabEntry} {syms syms' : List PatchSym}
    {jumps jumps' : List BinPatch.FuncJump} (h : JumpsOf t st syms jumps)
    (h' : JumpsOf t st syms' jumps') : JumpsOf t st (syms ++ syms') (jumps ++ jumps') := by
  constructor
  · intro fj hfj
    rcases List.mem_append.mp hfj with hfj | hfj
    · obtain ⟨sym, hsym, hrest⟩ := h.1 fj hfj
      exact ⟨sym, List.mem_append_left _ hsym, hrest⟩
    · obtain ⟨sym, hsym, hrest⟩ := h'.1 fj hfj
      exact ⟨sym, List.mem_append_right _ hsym, hrest⟩
  · intro sym hsym hdef addr haddr
    rcases List.mem_append.mp hsym with hsym | hsym
    · obtain ⟨fj, hfj, hjump⟩ := h.2 sym hsym hdef addr haddr
      exact ⟨fj, List.mem_append_left _ hfj, hjump⟩
    · obtain ⟨fj, hfj, hjump⟩ := h'.2 sym hsym hdef addr haddr
      exact ⟨fj, List.mem_append_right _ hfj, hjump⟩

theorem resolveSyms_funcJumps {t : Target} {st : List SymtabEntry} {group : List String}
    {front syms : List PatchSym} {m : DioMap} {bp bp' : BinPatch} (hs : m.Sound)
    (hm : m.Exact t group) (hg : ∀ sym ∈ syms, sym.symbol.InGroup group)
    (hfront : JumpsOf t st front bp.funcJumps) (h : resolveSyms t st syms m bp = .ok bp') :
    JumpsOf t st (front ++ syms) bp'.funcJumps := by
  induction syms generalizing m bp front with
  | nil =>
      cases h
      rw [List.append_nil]
      exact hfront
  | cons sym syms induction =>
      rw [List.forall_mem_cons] at hg
      rw [resolveSyms] at h
      obtain ⟨⟨addr, m'⟩, hres, h⟩ := bind_eq_ok_iff.mp h
      dsimp only at h
      obtain ⟨bp'', hadd, hloop⟩ := bind_eq_ok_iff.mp h
      obtain ⟨rfl, hm'⟩ := Symbol.resolve_addrIn hs hm hg.1 hres
      have hstep : JumpsOf t st (front ++ [sym]) bp''.funcJumps := by
        rcases BinPatch.addSym_funcJumps hadd with ⟨hdef, a, fj, haddr, hjump, heq⟩ | ⟨hno, heq⟩
        · rw [heq]
          refine hfront.append ⟨?_, ?_⟩
          · rw [List.forall_mem_singleton]
            exact ⟨sym, List.mem_singleton_self _, hdef, a, haddr, hjump⟩
          · rw [List.forall_mem_singleton]
            intro _ addr haddr'
            cases haddr.symm.trans haddr'
            exact ⟨fj, List.mem_singleton_self _, hjump⟩
        · rw [heq, ← List.append_nil bp.funcJumps]
          refine hfront.append ⟨List.forall_mem_nil _, ?_⟩
          rw [List.forall_mem_singleton]
          intro hdef addr haddr
          cases (hno hdef).symm.trans haddr
      have hrest := induction (Symbol.resolve_sound hs hres) hm' hg.2 hstep hloop
      rwa [List.append_assoc] at hrest

theorem BinPatch.checkSizes_eq_ok {fjs : List BinPatch.FuncJump}
    (h : BinPatch.checkSizes fjs = .ok ()) : ∀ fj ∈ fjs, MIN_FUNC_SIZE ≤ fj.funcSize := by
  induction fjs with
  | nil => exact nofun
  | cons fj fjs induction =>
      rw [BinPatch.checkSizes] at h
      split at h
      next => cases h
      next hsize => exact List.forall_mem_cons.mpr ⟨Nat.not_lt.mp hsize, induction h⟩

theorem requiredBid_eq_ok {bid : Option String} {s : String} (h : requiredBid bid = .ok s) :
    bid = some s := by
  cases bid with
  | none => cases h
  | some bid =>
      cases h
      rfl

/-- Two steps in a row give a message when both do. -/
theorem ungenerated_bind {α β : Type} {x : Except Ungenerated α} {f : α → Except Ungenerated β}
    {b : β} : x >>= f = .ok b ↔ ∃ a, x = .ok a ∧ f a = .ok b := by
  cases x <;> simp [bind, Except.bind]

/-- A message that was generated, from symbols of the patch and entries of the
target. -/
structure Generated (bfOld : BinFile TargetElf) (bfNew : BinFile PatchElf)
    (msg : BinPatch.Message) (syms : List PatchSym) (st : List SymtabEntry) : Prop where
  read : bfNew.elf.readPatch = .ok syms
  symtab : bfOld.elf.defSymTab = .ok st
  jumps : JumpsOf bfOld.elf.target st syms msg.funcJumps
  sizes : ∀ fj ∈ msg.funcJumps, MIN_FUNC_SIZE ≤ fj.funcSize
  oldBid : bfOld.getBuildId = .ok (some msg.oldBid)
  newBid : bfNew.getBuildId = .ok (some msg.newBid)
  values : msg.funcValues =
    (syms.filter PatchSym.isDef).filterMap fun s => s.symbol.addrIn bfOld.elf.target
  static : msg.staticSymbols = []

theorem getPatchInfo_generated {bfOld : BinFile TargetElf} {bfNew : BinFile PatchElf}
    {patchfile : String} {mode : Mode} {msg : BinPatch.Message}
    (h : getPatchInfo bfOld bfNew patchfile mode = .ok msg) :
    ∃ syms st, Generated bfOld bfNew msg syms st := by
  rw [getPatchInfo] at h
  split at h
  next => cases h
  next =>
    obtain ⟨bp, hmode, h⟩ := ungenerated_bind.mp h
    split at h
    next => cases h
    next =>
      obtain ⟨⟨⟩, hsizes, h⟩ := ungenerated_bind.mp h
      obtain ⟨old, hold, h⟩ := ungenerated_bind.mp h
      obtain ⟨oldBid, hreqOld, h⟩ := ungenerated_bind.mp h
      obtain ⟨new, hnew, h⟩ := ungenerated_bind.mp h
      obtain ⟨newBid, hreqNew, h⟩ := ungenerated_bind.mp h
      cases h
      obtain rfl := requiredBid_eq_ok hreqOld
      obtain rfl := requiredBid_eq_ok hreqNew
      have hresolve : bfNew.elf.resolve bfOld.elf = .ok bp := by
        cases mode with
        | auto => cases hmode
        | other text => cases hmode
        | manual =>
            rw [Mode.resolve] at hmode
            split at hmode
            next => cases hmode
            next bp' heq =>
              cases hmode
              exact heq
      obtain ⟨syms, hsyms, h⟩ := bind_eq_ok_iff.mp hresolve
      obtain ⟨st, hst, h⟩ := bind_eq_ok_iff.mp h
      obtain ⟨group, hg⟩ := PatchElf.readPatch_inGroup hsyms
      have hexact : DioMap.Exact bfOld.elf.target group .empty := fun _ => .inl rfl
      have hsound := (Reached.empty (t := bfOld.elf.target)).sound
      have hnil : JumpsOf bfOld.elf.target st [] (BinPatch.mk [] [] []).funcJumps := by
        simp [JumpsOf]
      have hjumps := resolveSyms_funcJumps hsound hexact hg hnil h
      have hvalues := resolveSyms_funcValues hsound hexact hg h
      exact ⟨syms, st, hsyms, hst, hjumps, BinPatch.checkSizes_eq_ok hsizes, hold, hnew, hvalues,
        rfl⟩

/-- The jumps of a message start from different addresses when no two definitions
stand for one. -/
theorem Generated.nodup {bfOld : BinFile TargetElf} {bfNew : BinFile PatchElf}
    {msg : BinPatch.Message} {syms : List PatchSym} {st : List SymtabEntry}
    (h : Generated bfOld bfNew msg syms st) (hapart : bfNew.elf.NamesApart bfOld.elf) :
    msg.funcValues.Nodup := by
  rw [h.values, List.Nodup, List.pairwise_filterMap, List.pairwise_filter]
  have hboth := (PatchElf.readPatch_static_apart h.read).and (hapart syms h.read)
  refine hboth.imp fun ⟨hstatic, hne⟩ hs hs' addr haddr addr' haddr' => ?_
  rintro rfl
  exact hne hs hs' (hstatic hs hs') addr haddr haddr'

end Nsb
