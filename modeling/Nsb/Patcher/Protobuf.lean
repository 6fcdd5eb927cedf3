import Nsb.Generator.BinPatch
import Nsb.Patcher.Patch

/-!
# Reading the message

`unpack_protobuf_binpatch` of `protobuf.c` and `elf_info_binpatch` of `elf.c`: how
the content of the `vzpatch` section becomes a `struct patch_info_s`.

`bin_patch__unpack` is generated when nsb is built, so it is a parameter.  `gives`
says which allocations succeed, by their number.  Every one that does not ends the
reading, and what is read otherwise is the message, with its numbers in the fields
of the C structures.
-/

namespace Nsb

def ENODATA : Int := 61

/-! ## The entries -/

/-- A function that allocates, and gives nothing when memory is short.  The state is
the number of allocations so far. -/
abbrev Alloc (α : Type) := StateT Nat Option α

/-- What a message has for a jump: `create_funcjump`. -/
def BinPatch.FuncJump.unpacked (fj : BinPatch.FuncJump) : Nsb.FuncJump :=
  { name := fj.name
    funcValue := BitVec.ofNat 64 fj.funcValue
    funcSize := BitVec.ofNat 32 fj.funcSize
    patchValue := BitVec.ofNat 64 fj.patchValue
    shndx := BitVec.ofNat 32 fj.shndx }

def BinPatch.MarkedSym.unpacked (ms : BinPatch.MarkedSym) : Nsb.MarkedSym :=
  { idx := BitVec.ofNat 32 ms.idx, addr := BitVec.ofNat 64 ms.addr }

def BinPatch.StaticSym.unpacked (ss : BinPatch.StaticSym) : Nsb.StaticSym :=
  { patchSize := BitVec.ofNat 32 ss.patchSize
    patchAddress := BitVec.ofNat 64 ss.patchAddress
    targetValue := BitVec.ofNat 64 ss.targetValue }

/-- The patch information of a message. -/
def BinPatch.Message.patchInfo (bp : BinPatch.Message) : PatchInfo :=
  { targetBid := bp.oldBid
    patchBid := bp.newBid
    funcJumps := bp.funcJumps.map BinPatch.FuncJump.unpacked
    manualSyms := bp.manualSymbols.map BinPatch.MarkedSym.unpacked
    globalSyms := bp.globalSymbols.map BinPatch.MarkedSym.unpacked
    staticSyms := bp.staticSymbols.map BinPatch.StaticSym.unpacked }

section

variable (gives : Nat → Bool)

/-- `malloc`, `calloc` and `strdup`. -/
def xmalloc : Alloc Unit := fun n => if gives n then some ((), n + 1) else none

/-- `create_funcjump`: the structure and its name. -/
def createFuncjump (fj : BinPatch.FuncJump) : Alloc FuncJump := do
  xmalloc gives
  xmalloc gives
  pure fj.unpacked

/-- `create_manual_sym`. -/
def createManualSym (ms : BinPatch.MarkedSym) : Alloc MarkedSym := do
  xmalloc gives
  pure ms.unpacked

/-- `create_global_sym`. -/
def createGlobalSym (ms : BinPatch.MarkedSym) : Alloc MarkedSym := do
  xmalloc gives
  pure ms.unpacked

/-- `create_static_sym`. -/
def createStaticSym (ss : BinPatch.StaticSym) : Alloc StaticSym := do
  xmalloc gives
  pure ss.unpacked

/-- The array of pointers and what they point to. -/
def setPatchEntries {α β : Type} (create : α → Alloc β) (l : List α) : Alloc (List β) := do
  xmalloc gives
  l.mapM create

/-- `set_patch_func_jumps`. -/
def setPatchFuncJumps (bp : BinPatch.Message) : Alloc (List FuncJump) :=
  setPatchEntries gives (createFuncjump gives) bp.funcJumps

/-- `set_patch_manual_syms`. -/
def setPatchManualSyms (bp : BinPatch.Message) : Alloc (List MarkedSym) :=
  setPatchEntries gives (createManualSym gives) bp.manualSymbols

/-- `set_patch_global_syms`. -/
def setPatchGlobalSyms (bp : BinPatch.Message) : Alloc (List MarkedSym) :=
  setPatchEntries gives (createGlobalSym gives) bp.globalSymbols

/-- `set_patch_static_syms`. -/
def setPatchStaticSyms (bp : BinPatch.Message) : Alloc (List StaticSym) :=
  setPatchEntries gives (createStaticSym gives) bp.staticSymbols

/-- The steps of `unpack_protobuf_binpatch` behind `bin_patch__unpack`. -/
def setPatchInfo (bp : BinPatch.Message) : Alloc PatchInfo := do
  xmalloc gives
  xmalloc gives
  let funcJumps ← setPatchFuncJumps gives bp
  let manualSyms ← setPatchManualSyms gives bp
  let globalSyms ← setPatchGlobalSyms gives bp
  let staticSyms ← setPatchStaticSyms gives bp
  pure { targetBid := bp.oldBid, patchBid := bp.newBid, funcJumps, manualSyms, globalSyms,
         staticSyms }

variable (unpack : List Byte → Option BinPatch.Message)

/-- `unpack_protobuf_binpatch`, with `n` allocations before it. -/
def unpackProtobufBinpatch (data : List Byte) (n : Nat) : Except Int PatchInfo :=
  match unpack data with
  | none => .error (-ENOMEM)
  | some bp =>
      match setPatchInfo gives bp n with
      | none => .error (-ENOMEM)
      | some (pi, _) => .ok pi

/-- The `vzpatch` section as libelf hands it over: `sh_size`, `none` when
`gelf_getshdr` fails, and what `elf_getdata` returns. -/
structure VzpatchScn where
  shSize : Option Nat
  edata : Option (List Byte)

/-- `elf_info_binpatch` behind `elf_get_section_by_name`.  The copy of the data that is
allocated first is never used. -/
def VzpatchScn.binpatch (scn : VzpatchScn) : Except Int PatchInfo :=
  match scn.shSize, scn.edata with
  | none, _ => .error (-EINVAL)
  | some 0, _ => .error (-EINVAL)
  | some (_ + 1), none => .error (-ENODATA)
  | some (_ + 1), some data =>
      if gives 0 then unpackProtobufBinpatch gives unpack data 1 else .error (-ENOMEM)

end

/-! ## What is read -/

/-- A computation that gives nothing or one value, however much is allocated. -/
def Alloc.Only {α : Type} (x : Alloc α) (a : α) : Prop := ∀ n r, x n = some r → r.1 = a

section

variable {gives : Nat → Bool}

theorem Alloc.Only.pure {α : Type} (a : α) : Alloc.Only (Pure.pure a : Alloc α) a := by
  intro n r h
  cases h
  rfl

theorem Alloc.Only.bind {α β : Type} {x : Alloc α} {f : α → Alloc β} {a : α} {b : β}
    (hx : x.Only a) (hf : (f a).Only b) : Alloc.Only (x >>= f) b := by
  intro n r h
  obtain ⟨⟨a', n'⟩, hxn, hfn⟩ := Option.bind_eq_some_iff.mp h
  cases hx n _ hxn
  exact hf n' r hfn

theorem xmalloc_only : Alloc.Only (xmalloc gives) () := fun _ _ _ => rfl

/-- An entry behind its allocation. -/
theorem xmalloc_then_only {α : Type} {x : Alloc α} {a : α} (h : x.Only a) :
    Alloc.Only (xmalloc gives >>= fun _ => x) a :=
  xmalloc_only.bind h

theorem setPatchEntries_only {α β : Type} {create : α → Alloc β} {g : α → β}
    (hcreate : ∀ a, (create a).Only (g a)) (l : List α) :
    (setPatchEntries gives create l).Only (l.map g) := by
  refine xmalloc_then_only ?_
  induction l with
  | nil => exact .pure _
  | cons a l induction =>
      rw [List.mapM_cons]
      exact (hcreate a).bind (induction.bind (.pure _))

theorem setPatchInfo_only (bp : BinPatch.Message) : (setPatchInfo gives bp).Only bp.patchInfo := by
  have hjump (fj : BinPatch.FuncJump) : (createFuncjump gives fj).Only fj.unpacked :=
    xmalloc_then_only (xmalloc_then_only (.pure _))
  have hmanual (ms : BinPatch.MarkedSym) : (createManualSym gives ms).Only ms.unpacked :=
    xmalloc_then_only (.pure _)
  have hglobal (ms : BinPatch.MarkedSym) : (createGlobalSym gives ms).Only ms.unpacked :=
    xmalloc_then_only (.pure _)
  have hstatic (ss : BinPatch.StaticSym) : (createStaticSym gives ss).Only ss.unpacked :=
    xmalloc_then_only (.pure _)
  refine xmalloc_then_only (xmalloc_then_only ?_)
  refine (setPatchEntries_only hjump _).bind ?_
  refine (setPatchEntries_only hmanual _).bind ?_
  refine (setPatchEntries_only hglobal _).bind ?_
  exact (setPatchEntries_only hstatic _).bind (.pure _)

/-- A section that is read has a message, and its patch information is read. -/
theorem VzpatchScn.binpatch_eq_ok {scn : VzpatchScn} {unpack : List Byte → Option BinPatch.Message}
    {pi : PatchInfo} (h : scn.binpatch gives unpack = .ok pi) :
    ∃ data bp, scn.edata = some data ∧ unpack data = some bp ∧ pi = bp.patchInfo := by
  rw [VzpatchScn.binpatch] at h
  split at h
  next => cases h
  next => cases h
  next => cases h
  next data _ hdata =>
    split at h
    next =>
      rw [unpackProtobufBinpatch] at h
      split at h
      next => cases h
      next bp hbp =>
        split at h
        next => cases h
        next pi' n hset =>
          cases h
          exact ⟨data, bp, hdata, hbp, setPatchInfo_only bp _ _ hset⟩
    next => cases h

end

end Nsb
