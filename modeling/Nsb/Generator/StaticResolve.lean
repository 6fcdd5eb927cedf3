import Nsb.Lib.Fields
import Nsb.Generator.ObjectFile

/-!
# The static references of a patch, from its object files

`resolve` of `static_symbol.py`: a patch that was linked from object files is compared
with them function by function, and the position independent references in its code
are turned from the symbols of the patch to those of the target.

`staticResolve_exact` says what a result stands for.  Every function of the object files
is in the patch under its key and has there the code of the object file, outside of the
relocation fields.  The result has one entry for each reference that is moved, in order
and no other, and a reference that is not moved goes through a table to a symbol that
may be interposed, or into code or constants, or to something the target does not have.
-/

namespace Nsb

/-! ## The files -/

/-- What `resolve` reads of the target and of the patch.  `text` is the section of the
code, and `highPc` is the attribute of the DIE at an offset. -/
structure StaticElf extends TargetElf where
  highPc : Nat → Option HighPc
  text : Option Section

/-- `get_cu_names`.  The table has the names of the compile units. -/
def getCuNames (cus : Option (List CU)) : Except Raised (List (Option String)) := do
  let _ ← DebugInfo.init cus
  (cus.getD []).mapM CU.getCUName

/-- `ModuleSymTab`. -/
structure ModuleSymTab where
  sec : List ElfSym
  maskedAddrs : List Nat
  moduleSymNames : List String

/-- `ModuleSymTab.__init__`. -/
def TargetElf.moduleSymTab (t : TargetElf) : Except Raised ModuleSymTab :=
  match t.symtab with
  | none => .error (.exception "No symbol table")
  | some st => do
      let di ← DebugInfo.init t.cus
      let masked ← t.target.maskedAddrs di (← di.iterDios)
      let names := (st.filter fun s =>
        s.stShndx ≠ .shnUndef && s.isObjectOrFunc && s.stValue ∉ masked).map SymtabEntry.name
      pure ⟨st.map SymtabEntry.elfSym, masked, names⟩

/-- `get_addr`. -/
def TargetElf.getAddr (t : TargetElf) : RelKey → Except Raised (Option Nat)
  | .name name => do
      let symtab ← t.moduleSymTab
      match ← getSym symtab.sec symtab.maskedAddrs name with
      | some sym => pure (some sym.stValue)
      | none => throw (.exception ("No symbol found with name '" ++ name ++ "'"))
  | .die key => do
      let di ← DebugInfo.init t.cus
      match ← di.getDioByKey key with
      | none => throw .attributeError
      | some dio => di.getAddr dio

/-! ## Comparing a function -/

/-- `get_die_size`. -/
def Die.getDieSize (die : Die) (highPc : Option HighPc) : Except Raised Int :=
  if die.tag = .compileUnit ∨ die.tag = .subprogram then
    match die.attr .lowPc, highPc with
    | some _, some (.constant n) => .ok n
    | some (.addr low), some (.address high) => .ok (high - low)
    | some _, some (.address _) => .error .typeError
    | some _, some (.otherForm form) => .error (.exception ("Unknown attribute form " ++ form))
    | _, _ => .error (.exception "DW_AT_\x7blow,high\x7d_pc attr missing. Non-continuos code?")
  else .error .assertionError

/-- `format_di_key`. -/
def DiKey.format (key : DiKey) : String :=
  String.intercalate "::" (key.map fun part =>
    part.1.getD "" ++ if part.2 = .subprogram then "()" else "")

/-- The text of an object that has a key. -/
def Dio.text (dio : Dio) (key : DiKey) : String :=
  "DIO<" ++ key.format ++ " <" ++ String.ofList (Nat.toDigits 16 dio.diePos) ++ ">>"

/-- `read` of the code of a function.  A negative size reads the rest of the file, which
does not have it. -/
def readCode : Option Section → Option Nat → Int → Except Raised (List Byte)
  | none, _, _ => .error .attributeError
  | some _, none, _ => .error .typeError
  | some sec, some addr, size =>
      if 0 ≤ size then sec.read addr size.toNat
      else if (addr : Int) - sec.shAddr + sec.shOffset < 0 then .error .ioError
      else .error .assertionError

/-- `reloc_map`: the size of the field at an offset. -/
def fieldLen {κ : Type} (relocs : List (Reloc κ)) (offset : Nat) : Nat :=
  ((relocs.find? fun rel => rel.relOffset = offset).map fun rel => rel.relType.size).getD 0

/-- `cmp_func`. -/
def cmpFunc (new : StaticElf) (obj : ObjElf) (func : FuncRelocs) (newDio objDio : Dio)
    (newAddr objAddr : Option Nat) : Except Raised Unit := do
  let newSize ← newDio.die.getDieSize (new.highPc newDio.diePos)
  let objSize ← objDio.die.getDieSize (obj.highPc objDio.diePos)
  if newSize ≠ objSize then
    throw (.exception ("Function " ++ newDio.text func.funcDiKey ++ " size mismatch"))
  else do
    pyAssert (func.relocs.map Reloc.relOffset).Nodup
    let newCode ← readCode new.text newAddr newSize
    let objCode ← readCode (some func.textSec.place) objAddr newSize
    match Fields.mismatch (fieldLen func.relocs) 0 0 (newCode.zip objCode) with
    | none => pure ()
    | some offset => throw (.exception ("Code mismatch for function " ++ func.funcDiKey.format ++
        " at offset " ++ toString offset))

/-! ## `resolve` -/

/-- The body of the loop over the functions of an object file. -/
def resolveFunc (old new : StaticElf) (newDi : DebugInfo) (file : ObjectFile)
    (func : FuncRelocs) : Except Raised (List StaticRef) := do
  let funcNewDio ← newDi.getDioByKey func.funcDiKey
  let funcObjDio ← file.di.getDioByKey func.funcDiKey
  let some newDio := funcNewDio | throw .attributeError
  let newAddr ← newDi.getAddr newDio
  let some objDio := funcObjDio | throw .attributeError
  let objAddr ← file.di.getAddr objDio
  cmpFunc new file.elf func newDio objDio newAddr objAddr
  let some text := new.text | throw .attributeError
  let some addr := newAddr | throw .typeError
  resolveRelocs old.getAddr new.getAddr text addr func.relocs

/-- The loop over the object files.  `iteritems` is the order in which the entries of
the dictionary come. -/
def resolveObjs (iteritems : List FuncRelocs → List FuncRelocs) (old new : StaticElf)
    (newDi : DebugInfo) (moduleSymNames : List String) :
    List ObjElf → Except Raised (List StaticRef)
  | [] => .ok []
  | obj :: objs => do
      let file ← ObjectFile.init obj
      let table ← file.getRelocs moduleSymNames
      let refs ← (iteritems table).mapM (resolveFunc old new newDi file)
      let rest ← resolveObjs iteritems old new newDi moduleSymNames objs
      pure (refs.flatten ++ rest)

/-- `resolve`. -/
def staticResolve (iteritems : List FuncRelocs → List FuncRelocs) (old new : StaticElf)
    (objSeq : List ObjElf) : Except Raised (List StaticRef) := do
  let oldCus ← getCuNames old.cus
  let newDi ← DebugInfo.init new.cus
  let newCus ← getCuNames new.cus
  if !newCus.all (· ∈ oldCus) then throw (.exception "CU mismatch")
  else do
    let objCus := (← objSeq.mapM fun obj => getCuNames obj.cus).flatten
    if !(newCus.all (· ∈ objCus) && objCus.all (· ∈ newCus)) then
      throw (.exception "CU mismatch")
    else do
      let symtab ← new.moduleSymTab
      resolveObjs iteritems old new newDi symtab.moduleSymNames objSeq

/-! ## What a result stands for -/

/-- What becomes of a reference in the code of a function.  `moved` has the value of the
field moved by the distance of the two addresses of the symbol. -/
inductive Fate (old new : TargetElf) (text : Section) (addr : Nat) (rel : Reloc RelKey) :
    Option StaticRef → Prop where
  | table (hpic : rel.relType.isPic = false) : Fate old new text addr rel none
  | fixed (hpic : rel.relType.isPic = true) (hkey : rel.key = none) :
      Fate old new text addr rel none
  | absent {key : RelKey} (hpic : rel.relType.isPic = true) (hkey : rel.key = some key)
      (hold : old.getAddr key = .ok none ∨ old.getAddr key = .ok (some 0)) :
      Fate old new text addr rel none
  | moved {key : RelKey} {oldAddr newAddr : Nat} {data : List Byte}
      (hpic : rel.relType.isPic = true) (hkey : rel.key = some key)
      (hold : old.getAddr key = .ok (some oldAddr)) (hne : oldAddr ≠ 0)
      (hnew : new.getAddr key = .ok (some newAddr))
      (hread : text.read (addr + rel.relOffset) rel.relType.size = .ok data) :
      Fate old new text addr rel (some ⟨rel.relType.size, addr + rel.relOffset,
        (Bytes.signed data + BitVec.ofNat 64 oldAddr - BitVec.ofNat 64 newAddr).toNat⟩)

/-- Two codes are the same outside of the relocation fields. -/
def SameOutside {κ : Type} (relocs : List (Reloc κ)) (newCode objCode : List Byte) : Prop :=
  ∀ i, (∀ rel ∈ relocs, ¬ (rel.relOffset ≤ i ∧ i < rel.relOffset + rel.relType.size)) →
    newCode[i]? = objCode[i]?

/-- A function of an object file and what it is compared with. -/
structure FuncCode (new : StaticElf) (newDi : DebugInfo) (file : ObjectFile)
    (func : FuncRelocs) where
  text : Section
  newDio : Dio
  objDio : Dio
  newAddr : Nat
  objAddr : Nat
  size : Nat
  newCode : List Byte
  objCode : List Byte
  text_eq : new.text = some text
  newDio_eq : newDi.getDioByKey func.funcDiKey = .ok (some newDio)
  objDio_eq : file.di.getDioByKey func.funcDiKey = .ok (some objDio)
  newAddr_eq : newDio.die.addr = some newAddr
  objAddr_eq : objDio.die.addr = some objAddr
  newSize_eq : newDio.die.getDieSize (new.highPc newDio.diePos) = .ok size
  objSize_eq : objDio.die.getDieSize (file.elf.highPc objDio.diePos) = .ok size
  newCode_eq : text.read newAddr size = .ok newCode
  objCode_eq : func.textSec.place.read objAddr size = .ok objCode
  same : SameOutside func.relocs newCode objCode

/-- The entries of the result for a function, from the fates of its references. -/
def FuncRefs (old new : StaticElf) (newDi : DebugInfo) (file : ObjectFile) (func : FuncRelocs)
    (refs : List StaticRef) : Prop :=
  ∃ (code : FuncCode new newDi file func) (fates : List (Option StaticRef)),
    List.Forall₂ (Fate old.toTargetElf new.toTargetElf code.text code.newAddr) func.relocs fates ∧
      refs = fates.reduceOption

/-- The entries of the result for an object file. -/
def ObjRefs (old new : StaticElf) (newDi : DebugInfo) (moduleSymNames : List String)
    (obj : ObjElf) (refs : List StaticRef) : Prop :=
  ∃ file table order rows, ObjectFile.init obj = .ok file ∧
    file.ReadsSections moduleSymNames obj.sections table ∧ List.Perm order table ∧
    List.Forall₂ (FuncRefs old new newDi file) order rows ∧ refs = rows.flatten

/-! ## One reference -/

/-- The sum of the source, modulo `2 ^ 64`. -/
theorem targetValue_eq (x : BitVec 64) (old new : Nat) :
    (((x.toNat : Int) + old - new) % (1 <<< 64 : Nat)).toNat =
      (x + BitVec.ofNat 64 old - BitVec.ofNat 64 new).toNat := by
  have hint : ((x + BitVec.ofNat 64 old - BitVec.ofNat 64 new).toNat : Int) =
      ((x.toNat : Int) + old - new) % (1 <<< 64 : Nat) := by
    rw [BitVec.toNat_sub, BitVec.toNat_add, BitVec.toNat_ofNat, BitVec.toNat_ofNat,
      Nat.one_shiftLeft]
    omega
  rw [← hint, Int.toNat_natCast]

/-- A value that is returned is that of the field. -/
theorem relValue_signed {sec : Section} {addr value : Nat} {relType : RelocType}
    (h : relValue sec addr relType.size = .ok value) :
    ∃ data, sec.read addr relType.size = .ok data ∧ value = (Bytes.signed data).toNat := by
  cases hread : sec.read addr relType.size with
  | error e =>
      rw [relValue, readNum, hread] at h
      cases h
  | ok data =>
      rw [relValue_eq relType.size_cases hread] at h
      exact ⟨data, rfl, (Except.ok.inj h).symm⟩

theorem resolveReloc_fate {old new : TargetElf} {text : Section} {addr : Nat} {rel : Reloc RelKey}
    {r : Option StaticRef} (h : resolveReloc old.getAddr new.getAddr text addr rel = .ok r) :
    Fate old new text addr rel r := by
  rw [resolveReloc] at h
  split at h
  next hpic =>
    cases h
    exact .table (by simpa using hpic)
  next hpic =>
    have hpic' : rel.relType.isPic = true := by simpa using hpic
    cases hkey : rel.key with
    | none =>
        rw [hkey] at h
        cases h
        exact .fixed hpic' hkey
    | some key =>
        rw [hkey] at h
        obtain ⟨oldAddr, hold, h⟩ := bind_eq_ok_iff.mp h
        cases oldAddr with
        | none =>
            cases h
            exact .absent hpic' hkey (.inl hold)
        | some oldAddr =>
            dsimp only at h
            split at h
            next hzero =>
              cases h
              exact .absent hpic' hkey (.inr (hzero ▸ hold))
            next hne =>
              obtain ⟨value, hvalue, h⟩ := bind_eq_ok_iff.mp h
              obtain ⟨newAddr, hnew, h⟩ := bind_eq_ok_iff.mp h
              cases newAddr with
              | none => cases h
              | some newAddr =>
                  cases h
                  obtain ⟨data, hread, hsigned⟩ := relValue_signed hvalue
                  rw [hsigned, targetValue_eq]
                  exact .moved hpic' hkey hold hne hnew hread

theorem resolveRelocs_fates {old new : TargetElf} {text : Section} {addr : Nat}
    {relocs : List (Reloc RelKey)} {refs : List StaticRef}
    (h : resolveRelocs old.getAddr new.getAddr text addr relocs = .ok refs) :
    ∃ fates, List.Forall₂ (Fate old new text addr) relocs fates ∧ refs = fates.reduceOption := by
  induction relocs generalizing refs with
  | nil =>
      cases h
      exact ⟨[], .nil, rfl⟩
  | cons rel relocs induction =>
      obtain ⟨r, hr, h⟩ := bind_eq_ok_iff.mp h
      obtain ⟨rest, hrest, h⟩ := bind_eq_ok_iff.mp h
      cases h
      obtain ⟨fates, hfates, rfl⟩ := induction hrest
      refine ⟨r :: fates, .cons (resolveReloc_fate hr) hfates, ?_⟩
      cases r <;> rfl

/-! ## One function -/

/-- A field of `reloc_map` is one of a relocation. -/
theorem exists_of_fieldLen {κ : Type} {relocs : List (Reloc κ)} {offset i : Nat}
    (h : i < offset + fieldLen relocs offset) (hle : offset ≤ i) :
    ∃ rel ∈ relocs, rel.relOffset = offset ∧ fieldLen relocs offset = rel.relType.size := by
  cases hfind : relocs.find? fun rel => rel.relOffset = offset with
  | none =>
      rw [fieldLen, hfind] at h
      exact absurd h (Nat.not_lt_of_le hle)
  | some rel =>
      have hoffset : rel.relOffset = offset := by simpa using List.find?_some hfind
      exact ⟨rel, List.mem_of_find?_eq_some hfind, hoffset, by rw [fieldLen, hfind]; rfl⟩

theorem not_covered {κ : Type} {relocs : List (Reloc κ)} {i : Nat}
    (h : ∀ rel ∈ relocs, ¬ (rel.relOffset ≤ i ∧ i < rel.relOffset + rel.relType.size)) :
    ¬ Fields.Covered (fieldLen relocs) i := by
  rintro ⟨j, hj, hlt⟩
  obtain ⟨rel, hrel, rfl, hsize⟩ := exists_of_fieldLen (Nat.lt_of_le_of_lt hj hlt) (Nat.le_refl j)
  rw [hsize] at hlt
  exact h rel hrel ⟨hj, hlt⟩

theorem readCode_eq_ok {sec : Option Section} {addr : Option Nat} {size : Int} {code : List Byte}
    (h : readCode sec addr size = .ok code) :
    ∃ place start n, sec = some place ∧ addr = some start ∧ size = (n : Nat) ∧
      place.read start n = .ok code := by
  cases sec with
  | none => cases h
  | some place =>
      cases addr with
      | none => cases h
      | some start =>
          rw [readCode] at h
          split at h
          next hsize =>
            exact ⟨place, start, size.toNat, rfl, rfl, (Int.toNat_of_nonneg hsize).symm, h⟩
          next =>
            split at h
            · cases h
            · cases h

/-- What `cmp_func` has found when it returns. -/
structure Compared (new : StaticElf) (obj : ObjElf) (func : FuncRelocs) (newDio objDio : Dio)
    (newAddr objAddr : Option Nat) (text : Section) (newStart objStart size : Nat)
    (newCode objCode : List Byte) : Prop where
  text_eq : new.text = some text
  newAddr_eq : newAddr = some newStart
  objAddr_eq : objAddr = some objStart
  newSize_eq : newDio.die.getDieSize (new.highPc newDio.diePos) = .ok size
  objSize_eq : objDio.die.getDieSize (obj.highPc objDio.diePos) = .ok size
  newCode_eq : text.read newStart size = .ok newCode
  objCode_eq : func.textSec.place.read objStart size = .ok objCode
  nodup : (func.relocs.map Reloc.relOffset).Nodup
  same : Fields.mismatch (fieldLen func.relocs) 0 0 (newCode.zip objCode) = none

theorem cmpFunc_eq_ok_iff {new : StaticElf} {obj : ObjElf} {func : FuncRelocs} {newDio objDio : Dio}
    {newAddr objAddr : Option Nat} :
    cmpFunc new obj func newDio objDio newAddr objAddr = .ok () ↔
      ∃ text newStart objStart size newCode objCode, Compared new obj func newDio objDio newAddr
        objAddr text newStart objStart size newCode objCode := by
  constructor
  · intro h
    obtain ⟨newSize, hnewSize, h⟩ := bind_eq_ok_iff.mp h
    obtain ⟨objSize, hobjSize, h⟩ := bind_eq_ok_iff.mp h
    split at h
    next => cases h
    next heq =>
      obtain ⟨_, hnodup, h⟩ := bind_eq_ok_iff.mp h
      obtain ⟨newCode, hnew, h⟩ := bind_eq_ok_iff.mp h
      obtain ⟨objCode, hobj, h⟩ := bind_eq_ok_iff.mp h
      split at h
      next hsame =>
        obtain ⟨text, newStart, size, htext, hnewAddr, hsize, hnewRead⟩ := readCode_eq_ok hnew
        obtain ⟨place, objStart, size', hplace, hobjAddr, hsize', hobjRead⟩ := readCode_eq_ok hobj
        cases hplace
        obtain rfl : size = size' := Int.ofNat.inj (hsize.symm.trans hsize')
        rw [not_not] at heq
        exact ⟨text, newStart, objStart, size, newCode, objCode,
          { text_eq := htext
            newAddr_eq := hnewAddr
            objAddr_eq := hobjAddr
            newSize_eq := hsize ▸ hnewSize
            objSize_eq := hsize ▸ heq ▸ hobjSize
            newCode_eq := hnewRead
            objCode_eq := hobjRead
            nodup := of_decide_eq_true (pyAssert_eq_ok_iff.mp hnodup)
            same := hsame }⟩
      next => cases h
  · rintro ⟨text, newStart, objStart, size, newCode, objCode, h⟩
    have hassert : pyAssert (decide (func.relocs.map Reloc.relOffset).Nodup) = .ok () :=
      pyAssert_eq_ok_iff.mpr (decide_eq_true h.nodup)
    have hsize : 0 ≤ (size : Int) := Int.natCast_nonneg size
    simp only [cmpFunc, h.newSize_eq, h.objSize_eq, h.text_eq, h.newAddr_eq, h.objAddr_eq,
      hassert, readCode, if_pos hsize, Int.toNat_natCast, h.newCode_eq, h.objCode_eq, h.same, bind,
      Except.bind, ne_eq, not_true_eq_false, if_false]
    rfl

theorem Compared.length_eq {new : StaticElf} {obj : ObjElf} {func : FuncRelocs}
    {newDio objDio : Dio} {newAddr objAddr : Option Nat} {text : Section}
    {newStart objStart size : Nat} {newCode objCode : List Byte}
    (h : Compared new obj func newDio objDio newAddr objAddr text newStart objStart size newCode
      objCode) : newCode.length = objCode.length :=
  (Section.read_length h.newCode_eq).trans (Section.read_length h.objCode_eq).symm

/-- Codes that have passed the comparison are the same outside of the fields. -/
theorem sameOutside_of_mismatch {κ : Type} {relocs : List (Reloc κ)} {newCode objCode : List Byte}
    (hlen : newCode.length = objCode.length)
    (h : Fields.mismatch (fieldLen relocs) 0 0 (newCode.zip objCode) = none) :
    SameOutside relocs newCode objCode := by
  intro i hi
  rcases Nat.lt_or_ge i newCode.length with hin | hout
  · have hin' : i < objCode.length := hlen ▸ hin
    have hpair : (newCode.zip objCode)[i]? = some (newCode[i], objCode[i]) := by
      rw [List.getElem?_eq_getElem (by simp [hin, hin']), List.getElem_zip]
    rw [List.getElem?_eq_getElem hin, List.getElem?_eq_getElem hin']
    exact congrArg some (Fields.mismatch_sound h hpair (not_covered hi))
  · rw [List.getElem?_eq_none hout, List.getElem?_eq_none (hlen ▸ hout)]

/-- No field begins inside of another one. -/
def FieldsApart {κ : Type} (relocs : List (Reloc κ)) : Prop :=
  ∀ rel ∈ relocs, ∀ rel' ∈ relocs, rel.relOffset < rel'.relOffset →
    rel.relOffset + rel.relType.size ≤ rel'.relOffset

theorem FieldsApart.apart {κ : Type} {relocs : List (Reloc κ)} (h : FieldsApart relocs) :
    Fields.Apart (fieldLen relocs) := by
  intro i j hij hj
  rcases Nat.eq_zero_or_pos (fieldLen relocs i) with hzero | hpos
  · rw [hzero]
    exact Nat.le_of_lt hij
  · obtain ⟨rel, hrel, rfl, hsize⟩ :=
      exists_of_fieldLen (Nat.lt_add_of_pos_right hpos) (Nat.le_refl i)
    obtain ⟨rel', hrel', rfl, _⟩ :=
      exists_of_fieldLen (Nat.lt_add_of_pos_right (Nat.pos_of_ne_zero hj)) (Nat.le_refl j)
    rw [hsize]
    exact h rel hrel rel' hrel' hij

/-- The field of a relocation is in the table, when no other one begins there. -/
theorem fieldLen_eq {κ : Type} {relocs : List (Reloc κ)}
    (h : (relocs.map Reloc.relOffset).Nodup) {rel : Reloc κ} (hrel : rel ∈ relocs) :
    fieldLen relocs rel.relOffset = rel.relType.size := by
  have hsome : (relocs.find? fun r => r.relOffset = rel.relOffset) = some rel := by
    rw [List.find?_eq_some_iff_append]
    obtain ⟨front, back, rfl⟩ := List.append_of_mem hrel
    refine ⟨by simp, front, back, rfl, fun r hr => ?_⟩
    rw [List.map_append, List.map_cons] at h
    have hne := (List.nodup_append.mp h).2.2 r.relOffset (List.mem_map_of_mem hr) rel.relOffset
      (List.mem_cons_self ..)
    simpa using hne
  rw [fieldLen, hsome]
  rfl

/-- When no field begins inside of another one, `cmp_func` lets a function pass if and
only if its two sizes are equal, no two relocations are at one offset, and the two codes
can be read and are the same outside of the relocation fields. -/
theorem cmpFunc_passes_iff {new : StaticElf} {obj : ObjElf} {func : FuncRelocs}
    (hapart : FieldsApart func.relocs) {newDio objDio : Dio} {newStart objStart : Nat} :
    cmpFunc new obj func newDio objDio (some newStart) (some objStart) = .ok () ↔
      ∃ text size newCode objCode, new.text = some text ∧
        newDio.die.getDieSize (new.highPc newDio.diePos) = .ok (size : Nat) ∧
        objDio.die.getDieSize (obj.highPc objDio.diePos) = .ok (size : Nat) ∧
        (func.relocs.map Reloc.relOffset).Nodup ∧ text.read newStart size = .ok newCode ∧
        func.textSec.place.read objStart size = .ok objCode ∧
        SameOutside func.relocs newCode objCode := by
  rw [cmpFunc_eq_ok_iff]
  constructor
  · rintro ⟨text, newStart', objStart', size, newCode, objCode, h⟩
    cases h.newAddr_eq
    cases h.objAddr_eq
    exact ⟨text, size, newCode, objCode, h.text_eq, h.newSize_eq, h.objSize_eq, h.nodup,
      h.newCode_eq, h.objCode_eq, sameOutside_of_mismatch h.length_eq h.same⟩
  · rintro ⟨text, size, newCode, objCode, htext, hnewSize, hobjSize, hnodup, hnew, hobj, hsame⟩
    refine ⟨text, newStart, objStart, size, newCode, objCode, htext, rfl, rfl, hnewSize, hobjSize,
      hnew, hobj, hnodup, (Fields.mismatch_eq_none_iff hapart.apart).mpr fun i p hp hi => ?_⟩
    obtain ⟨hfst, hsnd⟩ := List.getElem?_zip_eq_some.mp hp
    have heq := hsame i fun rel hrel hin => hi ⟨rel.relOffset, hin.1, by
      rw [fieldLen_eq hnodup hrel]
      exact hin.2⟩
    exact Option.some.inj (hfst.symm.trans (heq.trans hsnd))

/-- A file whose function `work` of eight bytes reads the static variable `count`. -/
def readerElf (work count : Nat) (field : List Byte) : StaticElf where
  cus := some [twoDies 0 (unitDie "a.c") (funcDie "work" work) (varDie "count" count)]
  symtab := some [nullEntry]
  dynsym := some [nullEntry]
  highPc := fun pos => if pos = 21 then some (.constant 8) else none
  text := some ⟨work, 0, [0x8b, 0x05] ++ field ++ [0xc3, 0x90]⟩

/-- Its object file. -/
def readerObj : ObjElf where
  cus := some [twoDies 0 (unitDie "a.c") (funcDie "work" 0) (varDie "count" 0)]
  highPc := fun pos => if pos = 21 then some (.constant 8) else none
  sections := [
    ⟨"", 0, 0, ⟨0, 0, []⟩, [], none⟩,
    ⟨".text.work", 0, 0, ⟨0, 0, [0x8b, 0x05, 0, 0, 0, 0, 0xc3, 0x90]⟩, [], none⟩,
    ⟨".bss.count", 0, 0, ⟨0, 0, []⟩, [], none⟩,
    ⟨".rela.text.work", 5, 1, ⟨0, 0, []⟩, [⟨2, 2, 2⟩], none⟩,
    ⟨".rela.debug_info", 5, 0, ⟨0, 0, []⟩, [⟨22, 1, 1⟩, ⟨31, 1, 2⟩], none⟩,
    ⟨".symtab", 0, 0, ⟨0, 0, []⟩, [], some [nullEntry,
      ⟨"", 0, 0, .other 3, .stbLocal, .stvDefault, .index 1⟩,
      ⟨"", 0, 0, .other 3, .stbLocal, .stvDefault, .index 2⟩]⟩]

/-- The code of `work` differs from that of the object file in the field only. -/
theorem reader_code_same :
    ∃ newCode objCode : List Byte, newCode ≠ objCode ∧
      SameOutside [(⟨.pc32, 2, none⟩ : Reloc RelKey)] newCode objCode := by
  have hapart : FieldsApart [(⟨.pc32, 2, none⟩ : Reloc RelKey)] := by
    simp [FieldsApart]
  have hpass : cmpFunc (readerElf 0x2000 0x4000 [0xfa, 0x1f, 0, 0]) readerObj
      ⟨[], ⟨".text.work", 0, 0, ⟨0, 0, [0x8b, 0x05, 0, 0, 0, 0, 0xc3, 0x90]⟩, [], none⟩,
        [⟨.pc32, 2, none⟩]⟩
      ((twoDies 0 (unitDie "a.c") (funcDie "work" 0x2000) (varDie "count" 0x4000)).dio
        ⟨21, funcDie "work" 0x2000, some 11⟩)
      ((twoDies 0 (unitDie "a.c") (funcDie "work" 0) (varDie "count" 0)).dio
        ⟨21, funcDie "work" 0, some 11⟩) (some 0x2000) (some 0) = .ok () := by
    decide +kernel
  obtain ⟨text, size, newCode, objCode, htext, hsize, _, _, hnew, hobj, hsame⟩ :=
    (cmpFunc_passes_iff hapart).mp hpass
  refine ⟨newCode, objCode, ?_, hsame⟩
  rintro rfl
  cases htext
  cases hsize
  cases hnew
  cases hobj

theorem resolveFunc_refs {old new : StaticElf} {newDi : DebugInfo} {file : ObjectFile}
    {func : FuncRelocs} {refs : List StaticRef}
    (h : resolveFunc old new newDi file func = .ok refs) :
    FuncRefs old new newDi file func refs := by
  obtain ⟨funcNewDio, hnewDio, h⟩ := bind_eq_ok_iff.mp h
  obtain ⟨funcObjDio, hobjDio, h⟩ := bind_eq_ok_iff.mp h
  cases funcNewDio with
  | none => cases h
  | some newDio =>
      obtain ⟨newAddr, hnewAddr, h⟩ := bind_eq_ok_iff.mp h
      cases funcObjDio with
      | none => cases h
      | some objDio =>
          obtain ⟨objAddr, hobjAddr, h⟩ := bind_eq_ok_iff.mp h
          obtain ⟨_, hcmp, h⟩ := bind_eq_ok_iff.mp h
          obtain ⟨text, newStart, objStart, size, newCode, objCode, hcode⟩ :=
            cmpFunc_eq_ok_iff.mp hcmp
          rw [hcode.newAddr_eq] at hnewAddr h
          rw [hcode.objAddr_eq] at hobjAddr
          rw [hcode.text_eq] at h
          obtain ⟨fates, hfates, rfl⟩ := resolveRelocs_fates h
          let code : FuncCode new newDi file func :=
            { text := text
              newDio := newDio
              objDio := objDio
              newAddr := newStart
              objAddr := objStart
              size := size
              newCode := newCode
              objCode := objCode
              text_eq := hcode.text_eq
              newDio_eq := hnewDio
              objDio_eq := hobjDio
              newAddr_eq := DebugInfo.getAddr_eq_some_iff.mp hnewAddr
              objAddr_eq := DebugInfo.getAddr_eq_some_iff.mp hobjAddr
              newSize_eq := hcode.newSize_eq
              objSize_eq := hcode.objSize_eq
              newCode_eq := hcode.newCode_eq
              objCode_eq := hcode.objCode_eq
              same := sameOutside_of_mismatch hcode.length_eq hcode.same }
          exact ⟨code, fates, hfates, rfl⟩

/-! ## The whole result -/

theorem ObjectFile.init_elf {obj : ObjElf} {file : ObjectFile}
    (h : ObjectFile.init obj = .ok file) : file.elf = obj := by
  obtain ⟨di, _, h⟩ := bind_eq_ok_iff.mp h
  obtain ⟨diReloc, _, h⟩ := bind_eq_ok_iff.mp h
  cases h
  rfl

theorem resolveObjs_refs {iteritems : List FuncRelocs → List FuncRelocs}
    (hiter : ∀ table, (iteritems table).Perm table) {old new : StaticElf} {newDi : DebugInfo}
    {moduleSymNames : List String} {objs : List ObjElf} {refs : List StaticRef}
    (h : resolveObjs iteritems old new newDi moduleSymNames objs = .ok refs) :
    ∃ parts, List.Forall₂ (ObjRefs old new newDi moduleSymNames) objs parts ∧
      refs = parts.flatten := by
  induction objs generalizing refs with
  | nil =>
      cases h
      exact ⟨[], .nil, rfl⟩
  | cons obj objs induction =>
      obtain ⟨file, hfile, h⟩ := bind_eq_ok_iff.mp h
      obtain ⟨table, htable, h⟩ := bind_eq_ok_iff.mp h
      obtain ⟨rows, hrows, h⟩ := bind_eq_ok_iff.mp h
      obtain ⟨rest, hrest, h⟩ := bind_eq_ok_iff.mp h
      cases h
      obtain ⟨parts, hparts, rfl⟩ := induction hrest
      have hreads := ObjectFile.getRelocs_reads htable
      rw [ObjectFile.init_elf hfile] at hreads
      have hobj : ObjRefs old new newDi moduleSymNames obj rows.flatten :=
        ⟨file, table, iteritems table, rows, hfile, hreads, hiter table,
          (mapM_eq_ok hrows).imp fun _ _ => resolveFunc_refs, rfl⟩
      exact ⟨rows.flatten :: parts, .cons hobj hparts, rfl⟩

/-- What `resolve` has done when it returns. -/
theorem staticResolve_eq_ok {iteritems : List FuncRelocs → List FuncRelocs} {old new : StaticElf}
    {objSeq : List ObjElf} {refs : List StaticRef}
    (h : staticResolve iteritems old new objSeq = .ok refs) :
    ∃ newDi symtab oldCus newCus objCus, DebugInfo.init new.cus = .ok newDi ∧
      new.moduleSymTab = .ok symtab ∧ getCuNames old.cus = .ok oldCus ∧
      getCuNames new.cus = .ok newCus ∧ objSeq.mapM (fun obj => getCuNames obj.cus) = .ok objCus ∧
      newCus ⊆ oldCus ∧ (∀ name, name ∈ newCus ↔ name ∈ objCus.flatten) ∧
      resolveObjs iteritems old new newDi symtab.moduleSymNames objSeq = .ok refs := by
  obtain ⟨oldCus, hold, h⟩ := bind_eq_ok_iff.mp h
  obtain ⟨newDi, hdi, h⟩ := bind_eq_ok_iff.mp h
  obtain ⟨newCus, hnew, h⟩ := bind_eq_ok_iff.mp h
  split at h
  next => cases h
  next hsub =>
    obtain ⟨objCus, hobj, h⟩ := bind_eq_ok_iff.mp h
    dsimp only at h
    split at h
    next => cases h
    next heq =>
      obtain ⟨symtab, hsymtab, h⟩ := bind_eq_ok_iff.mp h
      simp only [Bool.not_eq_true', Bool.not_eq_false, List.all_eq_true, decide_eq_true_eq,
        Bool.and_eq_true] at hsub heq
      exact ⟨newDi, symtab, oldCus, newCus, objCus, hdi, hsymtab, hold, hnew, hobj, hsub,
        fun name => ⟨heq.1 name, heq.2 name⟩, h⟩

/-- The result of `resolve` has one entry for each reference that is moved, file by file
and function by function.  Every function is in the patch under its key, with the code
of its object file outside of the relocation fields.  The compile units of the patch are
those of the object files, and the target has them all. -/
theorem staticResolve_exact {iteritems : List FuncRelocs → List FuncRelocs}
    (hiter : ∀ table, (iteritems table).Perm table) {old new : StaticElf} {objSeq : List ObjElf}
    {refs : List StaticRef} (h : staticResolve iteritems old new objSeq = .ok refs) :
    ∃ newDi symtab oldCus newCus objCus parts, DebugInfo.init new.cus = .ok newDi ∧
      new.moduleSymTab = .ok symtab ∧ getCuNames old.cus = .ok oldCus ∧
      getCuNames new.cus = .ok newCus ∧ objSeq.mapM (fun obj => getCuNames obj.cus) = .ok objCus ∧
      newCus ⊆ oldCus ∧ (∀ name, name ∈ newCus ↔ name ∈ objCus.flatten) ∧
      List.Forall₂ (ObjRefs old new newDi symtab.moduleSymNames) objSeq parts ∧
      refs = parts.flatten := by
  obtain ⟨newDi, symtab, oldCus, newCus, objCus, hdi, hsymtab, hold, hnew, hobj, hsub, heq,
    hloop⟩ := staticResolve_eq_ok h
  obtain ⟨parts, hparts, hrefs⟩ := resolveObjs_refs hiter hloop
  exact ⟨newDi, symtab, oldCus, newCus, objCus, parts, hdi, hsymtab, hold, hnew, hobj, hsub, heq,
    hparts, hrefs⟩

/-- The reference of `work` to `count` is moved to the `count` of the target. -/
theorem reader_static_ref :
    ∃ newDi moduleSymNames parts,
      List.Forall₂ (ObjRefs (readerElf 0x1000 0x3008 [0x02, 0x20, 0, 0])
        (readerElf 0x2000 0x4000 [0xfa, 0x1f, 0, 0]) newDi moduleSymNames) [readerObj] parts ∧
      [⟨4, 0x2002, 0x1002⟩] = parts.flatten := by
  have hres : staticResolve id (readerElf 0x1000 0x3008 [0x02, 0x20, 0, 0])
      (readerElf 0x2000 0x4000 [0xfa, 0x1f, 0, 0]) [readerObj] = .ok [⟨4, 0x2002, 0x1002⟩] := by
    decide +kernel
  obtain ⟨newDi, symtab, _, _, _, parts, _, _, _, _, _, _, _, hparts, hrefs⟩ :=
    staticResolve_exact (fun table => List.Perm.refl table) hres
  exact ⟨newDi, symtab.moduleSymNames, parts, hparts, hrefs⟩

end Nsb
