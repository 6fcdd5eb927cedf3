import Nsb.Patcher.Process

/-!
# ELF files

The parts of `patcher/elf.c` that the patcher runs on: the mappings of the
segments and their place in the process, the lookup of a dynamic symbol by name,
and the relocation sections.

libelf is the boundary.  `ElfInfo` has what its calls return, and failing calls
are `none` or an error there.
-/

namespace Nsb

/-! ## Segments -/

/-- `ELF_PAGESTART`. -/
def elfPageStart (v : BitVec 64) : BitVec 64 := v &&& ~~~ 0xfff

/-- `ELF_PAGEOFFSET`. -/
def elfPageOffset (v : BitVec 64) : BitVec 64 := v &&& 0xfff

/-- `ELF_PAGEALIGN`. -/
def elfPageAlign (v : BitVec 64) : BitVec 64 := (v + 0x1000 - 1) &&& ~~~ 0xfff

theorem elfPageOffset_toNat (v : BitVec 64) : (elfPageOffset v).toNat = v.toNat % 2 ^ 12 :=
  Bits.toNat_and_low (rfl : (0xfff : BitVec 64).toNat = 2 ^ 12 - 1)

theorem elfPageStart_toNat (v : BitVec 64) :
    (elfPageStart v).toNat = v.toNat - v.toNat % 2 ^ 12 :=
  Bits.toNat_and_high (rfl : (0xfff : BitVec 64).toNat = 2 ^ 12 - 1)

def PT_LOAD : BitVec 32 := 1

def PF_X : BitVec 32 := 1
def PF_W : BitVec 32 := 2
def PF_R : BitVec 32 := 4

/-- The protection of a segment. -/
def phdrProt (p : Phdr) : BitVec 32 :=
  (if p.pFlags &&& PF_R ≠ 0 then PROT_READ else 0) |||
  (if p.pFlags &&& PF_W ≠ 0 then PROT_WRITE else 0) |||
  (if p.pFlags &&& PF_X ≠ 0 then PROT_EXEC else 0)

/-- `create_elf_vma`. -/
def createElfVma (p : Phdr) : Vma :=
  { addr := p.pVaddr
    length := elfPageAlign (p.pFilesz + elfPageOffset p.pVaddr)
    flags := MAP_PRIVATE ||| MAP_FIXED
    prot := phdrProt p
    offset := p.pOffset - elfPageOffset p.pVaddr }

/-- The loop of `create_elf_mmaps` over the program headers.  `err` is zero
once a segment was added, so a later failure of `gelf_getphdr` returns zero. -/
def createElfMmapsLoop : List (Option Phdr) → Int → DlMap → DlMap × Int
  | [], _, dlm => if dlm.vmas.isEmpty then (dlm, -EINVAL) else (dlm, 0)
  | none :: _, err, dlm => (dlm, err)
  | some phdr :: l, err, dlm =>
      if phdr.pType ≠ PT_LOAD then createElfMmapsLoop l err dlm
      else
        match addDlVmaSorted dlm (createElfVma phdr) with
        | .error err => (dlm, err)
        | .ok dlm => createElfMmapsLoop l 0 dlm

/-- `create_elf_mmaps`. -/
def createElfMmaps (dlm : DlMap) : DlMap × Int := createElfMmapsLoop dlm.ei.phdrs (-1) dlm

/-- `pin_elf_mmap`. -/
def pinElfMmap (hole : BitVec 64) (vma : Vma) : Vma :=
  { vma with addr := elfPageStart (hole + vma.addr) }

/-- The size of the image that a hole is searched for. -/
def loadSize (dlm : DlMap) : BitVec 64 :=
  elfPageStart (dlMapEnd dlm) - elfPageStart (dlMapStart dlm)

/-- The last mapping of the object that a mapping belongs to. -/
def lastDlOf (ctx : Ctx) (vma : Vma) : Option Vma :=
  (dlmOf (ctx.dlMaps ++ ctx.serviceDlm.toList) vma).bind lastDlVma

/-- The hole that `pin_elf_mmaps` gets. -/
def findPlace (ctx : Ctx) (dlm : DlMap) : Int :=
  processFindPlaceForElf (lastDlOf ctx) ctx.sentinel (dlMapJumpHint ctx.targetDlm) (loadSize dlm)
    ctx.vmas

/-- All the mappings of an object moved to a hole. -/
def pinAll (hole : BitVec 64) (dlm : DlMap) : DlMap :=
  { dlm with vmas := dlm.vmas.map (pinElfMmap hole), execVma := dlm.execVma.map (pinElfMmap hole) }

/-- `pin_elf_mmaps`. -/
def pinElfMmaps (ctx : Ctx) (dlm : DlMap) : DlMap × Int :=
  let hole := findPlace ctx dlm
  if hole < 0 then (dlm, hole)
  else if dlMapCheckJumpRange ctx.targetDlm (BitVec.ofInt 64 hole) ≠ 0 ∨
      dlMapCheckJumpRange ctx.targetDlm (BitVec.ofInt 64 hole + loadSize dlm) ≠ 0 then
    (dlm, -ERANGE)
  else (pinAll (BitVec.ofInt 64 hole) dlm, 0)

/-- `load_elf`. -/
def loadElf (ft : Faults) (ctx : Ctx) (dlm : DlMap) (w : World) : DlMap × World × Int :=
  let (dlm, err) := createElfMmaps dlm
  if err ≠ 0 then (dlm, w, err)
  else
    let (dlm, err) := pinElfMmaps ctx dlm
    if err ≠ 0 then (dlm, w, err) else (dlm, processMmapDlMap ft ctx dlm w)

/-- `unload_elf`. -/
def unloadElf (ft : Faults) (ctx : Ctx) (dlm : DlMap) (w : World) : World × Int :=
  processMunmapDlMap ft ctx dlm w

/-- `elf_section_virt_base`. -/
def elfSectionVirtBase (ei : ElfInfo) (ndx : BitVec 16) : BitVec 64 :=
  match ei.shdrs[ndx.toNat]? with
  | some shdr => shdr.shAddr - shdr.shOffset
  | none => BitVec.ofInt 64 (-EINVAL)

/-! ## Dynamic symbols -/

/-- `compare_sym_name`. -/
def compareSymName (symname : String) (sym : Sym) : Int :=
  if sym.stName = 0 then 0
  else if sym.stSize = 0 then 0
  else
    match sym.name with
    | none => -EINVAL
    | some name => if name = symname then 1 else 0

/-- `find_sym` with `compare_sym_name`. -/
def findSym (symname : String) : List Sym → Except Int Sym
  | [] => .error (-ENOENT)
  | sym :: l =>
      let ret := compareSymName symname sym
      if ret < 0 then .error ret
      else if ret ≠ 0 then .ok sym
      else findSym symname l

/-- `elf_find_dsym_by_name`. -/
def elfFindDsymByName (ei : ElfInfo) (symname : String) : Except Int Sym :=
  match ei.dynsym with
  | none => .error (-ENOENT)
  | some syms => findSym symname syms

/-- `elf_dyn_sym_value`: an `int64_t`. -/
def elfDynSymValue (ei : ElfInfo) (name : String) : Int :=
  match elfFindDsymByName ei name with
  | .error err => if err ≠ -ENOENT then err else 0
  | .ok sym => sym.stValue.toInt

/-- `dlm_find_sym`: the return code and `si->value`.  The code is an `int`, so
a negative value is cut to 32 bits. -/
def dlmFindSym (name : String) (dlm : DlMap) : Int × BitVec 64 :=
  let value := elfDynSymValue dlm.ei name
  if value ≤ 0 then ((BitVec.ofInt 32 value).toInt, 0)
  else (1, dlMapStart dlm + BitVec.ofInt 64 value)

/-- `dl_map_symbol_value`. -/
def dlMapSymbolValue (dlm : DlMap) (name : String) : Int :=
  let (ret, value) := dlmFindSym name dlm
  if ret = 1 then value.toInt else if ret < 0 then ret else -ENOENT

/-- `dl_get_symbol_value`. -/
def dlGetSymbolValue (name : String) : List DlMap → Int
  | [] => -ENOENT
  | dlm :: l =>
      let (ret, value) := dlmFindSym name dlm
      if ret < 0 then ret
      else if ret ≠ 0 then value.toInt
      else dlGetSymbolValue name l

/-! ## Relocation sections -/

/-- `es_r_type`. -/
def esRType (es : ExternSymbol) : BitVec 32 := es.rela.rInfo.setWidth 32

/-- `GELF_R_SYM`. -/
def gelfRSym (rela : Rela) : BitVec 32 := (rela.rInfo >>> 32).setWidth 32

/-- `es_r_sym`. -/
def esRSym (es : ExternSymbol) : BitVec 32 := gelfRSym es.rela

/-- `es_s_bind`. -/
def esSBind (es : ExternSymbol) : BitVec 8 := es.sym.stInfo >>> 4

def STB_WEAK : BitVec 8 := 2

/-- `elf_weak_sym`. -/
def elfWeakSym (es : ExternSymbol) : Bool := esSBind es == STB_WEAK

/-- `collect_es` for the `i`-th entry. -/
def collectEs (ei : ElfInfo) (scn : RelaScn) (i : Nat) (rela : Rela) (head : List ExternSymbol) :
    List ExternSymbol × Int :=
  match ei.dynsym with
  | none => (head, -EINVAL)
  | some syms =>
      match syms[(gelfRSym rela).toNat]? with
      | none => (head, -ENOENT)
      | some sym =>
          if sym.stName = 0 then (head, 0)
          else
            match sym.name with
            | none => (head, -EINVAL)
            | some name =>
                if scn.alloc i then (head ++ [{ name := name, rela := rela, sym := sym }], 0)
                else (head, -ENOMEM)

/-- `iter_rela` with `collect_es`, from the `i`-th entry on. -/
def iterRela (ei : ElfInfo) (scn : RelaScn) :
    Nat → List Rela → List ExternSymbol → List ExternSymbol × Int
  | _, [], head => (head, 0)
  | i, rela :: l, head =>
      if !scn.getrela i then (head, -EINVAL)
      else
        let (head, ret) := collectEs ei scn i rela head
        if ret ≠ 0 then (head, ret) else iterRela ei scn (i + 1) l head

/-- `elf_collect_rela`: the list is freed on an error. -/
def elfCollectRela (ei : ElfInfo) (scn : RelaScn) : List ExternSymbol × Int :=
  let (head, err) := iterRela ei scn 0 scn.entries []
  if err ≠ 0 then ([], err) else (head, 0)

/-- `elf_rela_plt` and `elf_rela_dyn`, which differ in the section. -/
def elfRela (ei : ElfInfo) (scn : RelaScn) : List ExternSymbol × Int :=
  if scn.err ≠ 0 then ([], -ENOENT) else elfCollectRela ei scn

/-- `elf_rela_plt`. -/
def elfRelaPlt (ei : ElfInfo) : List ExternSymbol × Int := elfRela ei ei.relaPlt

/-- `elf_rela_dyn`. -/
def elfRelaDyn (ei : ElfInfo) : List ExternSymbol × Int := elfRela ei ei.relaDyn

def R_X86_64_NONE : BitVec 32 := 0
def R_X86_64_64 : BitVec 32 := 1
def R_X86_64_GLOB_DAT : BitVec 32 := 6
def R_X86_64_JUMP_SLOT : BitVec 32 := 7
def R_X86_64_RELATIVE : BitVec 32 := 8

/-- `elf_reloc_sym`.  The types that it lists as known and those it does not
know end in the same code. -/
def elfRelocSym (es : ExternSymbol) (address : BitVec 64) : ExternSymbol × Int :=
  if esRType es = R_X86_64_GLOB_DAT ∨ esRType es = R_X86_64_JUMP_SLOT then
    ({ es with address := address }, 0)
  else if esRType es = R_X86_64_64 then
    ({ es with address := address + es.rela.rAddend }, 0)
  else (es, -ENOTSUP)

end Nsb
