import Nsb.Lib.Loop
import Nsb.Lib.Memory

/-!
# The data model of the patcher

The structures of `patcher/include/context.h`, `vma.h`, `dl_map.h` and `elf.h`,
with the fields that the modelled functions read.  64-bit integers are
`BitVec 64`, return codes are `Int` and negative on failure, eight-byte buffers
are `Word`.

A C pointer is modelled by the value it points to.  Two places of the source
compare pointers.  `struct dl_map` pointers are compared when a symbol is
searched and when a jump is reverted, so a `DlMap` has a field `id` that stands
for its address.  `struct vma_area` pointers are compared with the last element
of a `dl_map`; the mappings of a process have distinct start addresses, and the
model compares these.

`/proc/PID/map_files/...` of a mapping is a link to the mapped file.  `MapFile`
is what nsb gets to see of that file: `is_elf_file` and `elf_create_info` are
functions of it.
-/

namespace Nsb

/-! ## Error codes -/

def ENOENT : Int := 2
def ESRCH : Int := 3
def E2BIG : Int := 7
def EAGAIN : Int := 11
def ENOMEM : Int := 12
def EFAULT : Int := 14
def EBUSY : Int := 16
def EEXIST : Int := 17
def EINVAL : Int := 22
def ENOSPC : Int := 28
def ERANGE : Int := 34
def ENOTSUP : Int := 95

/-- Eight bytes: `uint8_t [8]`. -/
abbrev Word := Vector Byte 8

/-- The little-endian bytes of a 64-bit value. -/
def wordOf (v : BitVec 64) : Word := Vector.ofFn fun i => v.extractLsb' (8 * i) 8

theorem wordOf_inj {v v' : BitVec 64} (h : wordOf v = wordOf v') : v = v' := by
  ext i hi
  have hbyte : (wordOf v)[i / 8] = (wordOf v')[i / 8] := by rw [h]
  have hbit := congrArg (fun b => b.getLsbD (i % 8)) hbyte
  have hlt : i % 8 < 8 := Nat.mod_lt _ (by decide)
  rw [← BitVec.getLsbD_eq_getElem, ← BitVec.getLsbD_eq_getElem]
  simpa [wordOf, hlt, Nat.div_add_mod] using hbit

/-! ## Patch information

What the generator stores in the `vzpatch` section. -/

/-- `struct static_sym_s`. -/
structure StaticSym where
  patchSize : BitVec 32
  patchAddress : BitVec 64
  targetValue : BitVec 64

/-- `struct marked_sym_s`. -/
structure MarkedSym where
  idx : BitVec 32
  addr : BitVec 64
deriving DecidableEq

/-- `struct func_jump_s`.  `create_funcjump` allocates it zeroed, so the three
last fields are zero until the jump is tuned. -/
structure FuncJump where
  name : String := ""
  funcValue : BitVec 64
  funcSize : BitVec 32 := 8
  patchValue : BitVec 64
  shndx : BitVec 32 := 1
  funcAddr : Addr := 0
  code : Word := Vector.replicate 8 0
  funcJump : Word := Vector.replicate 8 0
deriving DecidableEq

/-- `struct patch_info_s`. -/
structure PatchInfo where
  targetBid : String
  patchBid : String
  funcJumps : List FuncJump := []
  manualSyms : List MarkedSym := []
  globalSyms : List MarkedSym := []
  staticSyms : List StaticSym := []

/-! ## ELF files -/

/-- `e_type` of an ELF header. -/
inductive ElfType where
  | dyn
  | exec
  | other
deriving DecidableEq, Repr

/-- `GElf_Phdr`. -/
structure Phdr where
  pType : BitVec 32 := 1
  pFlags : BitVec 32
  pOffset : BitVec 64
  pVaddr : BitVec 64
  pFilesz : BitVec 64
deriving DecidableEq

/-- The two fields of `GElf_Shdr` that give the file offset of an address. -/
structure Shdr where
  shAddr : BitVec 64
  shOffset : BitVec 64

/-- `GElf_Sym`.  `name` is what `elf_strptr` returns for `st_name`, `none` when
it fails. -/
structure Sym where
  stName : BitVec 32
  name : Option String
  stInfo : BitVec 8 := 0x12
  stShndx : BitVec 16 := 0
  stValue : BitVec 64
  stSize : BitVec 64

/-- `GElf_Rela`. -/
structure Rela where
  rOffset : BitVec 64
  rInfo : BitVec 64
  rAddend : BitVec 64
deriving DecidableEq

/-- A relocation section as libelf hands it over: `err` is the return code of
`elf_create_scn`, and each entry comes with the outcome of `gelf_getrela` and
of the allocation in `create_ext_sym`. -/
structure RelaScn where
  err : Int := 0
  entries : List Rela := []
  getrela : Nat → Bool := fun _ => true
  alloc : Nat → Bool := fun _ => true

/-- `struct elf_info_s`.  A program header is `none` when `gelf_getphdr` fails
on it.  `vzpatch` is `none` without a `vzpatch` section, and an error when
`elf_info_binpatch` fails.  `data` is the content of the file by offset. -/
structure ElfInfo where
  eType : ElfType := .dyn
  bid : Option String := none
  phdrs : List (Option Phdr) := []
  shdrs : List Shdr := []
  dynsym : Option (List Sym) := none
  relaPlt : RelaScn := {}
  relaDyn : RelaScn := {}
  vzpatch : Option (Except Int PatchInfo) := none
  data : BitVec 64 → Byte := fun _ => 0

/-- The file behind a mapping.  `badElf` is one that `elf_create_info` fails
on. -/
inductive MapFile where
  | notElf
  | badElf (err : Int) (neg : err < 0)
  | elf (ei : ElfInfo)

/-- `is_elf_file`. -/
def isElfFile : MapFile → Bool
  | .notElf => false
  | .badElf _ _ => true
  | .elf _ => true

/-- `elf_create_info`. -/
def elfCreateInfo : MapFile → Except Int ElfInfo
  | .notElf => .error (-EINVAL)
  | .badElf err _ => .error err
  | .elf ei => .ok ei

theorem elfCreateInfo_error_neg {file : MapFile} {err : Int}
    (h : elfCreateInfo file = .error err) : err < 0 := by
  cases file with
  | notElf => cases h; decide
  | badElf e neg => cases h; exact neg
  | elf ei => cases h

/-- `elf_type_dyn`. -/
def elfTypeDyn (ei : ElfInfo) : Bool := ei.eType == .dyn

/-! ## Mappings -/

/-- `struct vma_area`.  `dlm` is the address of the `dl_map` it belongs to. -/
structure Vma where
  addr : Addr
  length : BitVec 64
  flags : BitVec 32 := 2
  prot : BitVec 32 := 1
  offset : BitVec 64 := 0
  path : Option String := none
  mapFile : Option MapFile := none
  dlm : Option Nat := none

/-- `vma_start`. -/
def vmaStart (v : Vma) : Addr := v.addr

/-- `vma_end`. -/
def vmaEnd (v : Vma) : Addr := v.addr + v.length

def PROT_READ : BitVec 32 := 1
def PROT_WRITE : BitVec 32 := 2
def PROT_EXEC : BitVec 32 := 4

def MAP_PRIVATE : BitVec 32 := 2
def MAP_FIXED : BitVec 32 := 16

/-- `vma_prot(vma) & PROT_EXEC`. -/
def isExec (v : Vma) : Bool := v.prot &&& PROT_EXEC != 0

/-- `struct dl_map`. -/
structure DlMap where
  id : Nat
  path : Option String
  vmas : List Vma := []
  ei : ElfInfo
  execVma : Option Vma := none

/-! ## Patches -/

/-- `struct extern_symbol`: a relocation with its symbol.  `dlm` is the object
the symbol was found in, `none` for the patch itself. -/
structure ExternSymbol where
  name : String
  rela : Rela
  sym : Sym
  dlm : Option DlMap := none
  address : BitVec 64 := 0

/-- `struct patch_s`. -/
structure Patch where
  pi : PatchInfo
  targetDlm : Option DlMap
  patchDlm : DlMap
  relaPlt : List ExternSymbol := []
  relaDyn : List ExternSymbol := []

/-- `iterate_patch_function_jumps`, for actors that leave the jump as it is. -/
def iteratePatchFunctionJumps {σ : Type} (pi : PatchInfo) (actor : FuncJump → σ → σ × Int)
    (data : σ) : σ × Int :=
  Loop.each actor pi.funcJumps data

end Nsb
