import Mathlib.Logic.Relation
import Mathlib.Tactic.Linarith
import Mathlib.Tactic.Ring
import Nsb.Generator.DieLookup
import Nsb.Generator.MemoryStream

/-!
# Values read through their types

`TypeObject` of `debuginfo.py` and `rtoi` of `util.py`.  The type of a variable is
a tree of DIEs that refer to each other by position.  `TypeObj` is the tree as the
constructor of `TypeObject` follows it, and reading a value is by recursion over it.

Sizes, encodings, member offsets and references are attributes that a library
reads; `TypedElf.typeAttrs` has them.  A type may lead back to itself, and its
object is then never finished: the construction is given how many levels it may
go down.

`TypeObj.Laid` says what it means that a value stands in memory.  What stands
there is read, whatever its type, and nothing else is (`TypeObj.read_exact`).
-/

namespace Nsb

/-! ## Integers -/

/-- What keeps a value from being read: something is raised, `rtoi` uses a variable
that is not set, or the steps do not suffice. -/
inductive Unread where
  | raised (e : Raised)
  | unboundLocalError
  | steps
deriving DecidableEq, Repr

/-- The loop of `rtoi`, with `result`, `shift` and `byte_sign`. -/
def rtoiLoop : List Byte → Nat → Nat → Option Nat → Nat × Nat × Option Nat
  | [], result, shift, byteSign => (result, shift, byteSign)
  | byte :: data, result, shift, _ =>
      rtoiLoop data (result + byte.toNat <<< shift) (shift + 8) (some (byte.toNat &&& 0x80))

/-- `rtoi`.  There is no `byte_sign` after a loop over nothing. -/
def rtoi (data : List Byte) (signed : Bool) : Except Unread Int :=
  match rtoiLoop data 0 0 none with
  | (result, shift, byteSign) =>
      if signed then
        match byteSign with
        | none => .error .unboundLocalError
        | some sign => .ok (if sign ≠ 0 then (result : Int) - (1 <<< shift : Nat) else result)
      else .ok result

/-- The bytes of an integer in two's complement. -/
def intBytes (size : Nat) (i : Int) : List Byte := Bytes.leBytes size (i % 256 ^ size).toNat

/-- An integer that a field of so many bytes can hold. -/
def FitsInt (size : Nat) (signed : Bool) (i : Int) : Prop :=
  if signed then -(256 ^ size : Int) ≤ 2 * i ∧ 2 * i < 256 ^ size else 0 ≤ i ∧ i < 256 ^ size

theorem rtoiLoop_eq (data : List Byte) (result shift : Nat) (byteSign : Option Nat) :
    rtoiLoop data result shift byteSign =
      (result + Bytes.leNat data <<< shift, shift + 8 * data.length,
        (data.getLast?.map fun b => b.toNat &&& 0x80).or byteSign) := by
  induction data generalizing result shift byteSign with
  | nil => simp [rtoiLoop, Bytes.leNat]
  | cons byte data induction =>
      have hresult : result + byte.toNat <<< shift + Bytes.leNat data <<< (shift + 8) =
          result + Bytes.leNat (byte :: data) <<< shift := by
        simp only [Bytes.leNat, Nat.shiftLeft_eq, Nat.pow_add]
        ring
      have hsign : (data.getLast?.map fun b => b.toNat &&& 0x80).or (some (byte.toNat &&& 0x80)) =
          ((byte :: data).getLast?.map fun b => b.toNat &&& 0x80).or byteSign := by
        cases data with
        | nil => simp
        | cons b data =>
            rw [List.getLast?_cons_cons, List.getLast?_eq_some_getLast (List.cons_ne_nil b data)]
            rfl
      rw [rtoiLoop, induction, hresult, hsign, List.length_cons, Nat.add_assoc, Nat.mul_succ,
        Nat.add_comm 8]

/-- The sign bit of the last byte. -/
theorem getLast_sign {data : List Byte} {b : Byte} (h : data.getLast? = some b) :
    b.toNat &&& 0x80 ≠ 0 ↔ 256 ^ data.length ≤ 2 * Bytes.leNat data := by
  obtain ⟨front, rfl⟩ := List.getLast?_eq_some_iff.mp h
  have hfront := Bytes.leNat_lt front
  have hbit : ∀ b : Byte, b.toNat &&& 0x80 ≠ 0 ↔ 128 ≤ b.toNat := by decide
  rw [hbit, Bytes.leNat_append, List.length_append, List.length_singleton, Nat.pow_succ]
  simp only [Bytes.leNat]
  constructor
  · intro hle
    nlinarith
  · intro hle
    by_contra hlt
    nlinarith

/-- What `rtoi` makes of bytes. -/
theorem rtoi_unsigned (data : List Byte) : rtoi data false = .ok (Bytes.leNat data : Int) := by
  rw [rtoi, rtoiLoop_eq]
  simp

theorem rtoi_signed {data : List Byte} (h : data ≠ []) :
    rtoi data true = .ok (if 256 ^ data.length ≤ 2 * Bytes.leNat data then
      (Bytes.leNat data : Int) - 256 ^ data.length else Bytes.leNat data) := by
  obtain ⟨b, hb⟩ : ∃ b, data.getLast? = some b :=
    ⟨_, List.getLast?_eq_some_getLast h⟩
  have hpow : (1 <<< (8 * data.length) : Nat) = 256 ^ data.length := by
    rw [Nat.one_shiftLeft, Nat.pow_mul]
  rw [rtoi, rtoiLoop_eq, hb]
  simp only [if_true, Option.map_some, Option.some_or, getLast_sign hb, hpow, Nat.shiftLeft_zero,
    Nat.zero_add]
  split <;> simp

/-- An integer comes back from its bytes. -/
theorem rtoi_intBytes {size : Nat} {signed : Bool} {i : Int} (hsize : 0 < size)
    (h : FitsInt size signed i) : rtoi (intBytes size i) signed = .ok i := by
  have hpos : (0 : Int) < 256 ^ size := by positivity
  have hmod := Int.emod_nonneg i (Int.ne_of_gt hpos)
  have hlt := Int.emod_lt_of_pos i hpos
  have hnat : (Bytes.leNat (intBytes size i) : Int) = i % 256 ^ size := by
    rw [intBytes, Bytes.leNat_leBytes, Nat.mod_eq_of_lt, Int.toNat_of_nonneg hmod]
    zify
    rw [Int.toNat_of_nonneg hmod]
    exact hlt
  cases signed with
  | false =>
      rw [rtoi_unsigned, hnat, Int.emod_eq_of_lt h.1 h.2]
  | true =>
      have hlen : (intBytes size i).length = size := Bytes.length_leBytes _ _
      have hne : intBytes size i ≠ [] := by
        rw [← List.length_pos_iff, hlen]
        exact hsize
      obtain ⟨hlow, hhigh⟩ := h
      have hwrap : (256 ^ size ≤ 2 * Bytes.leNat (intBytes size i)) ↔ i < 0 := by
        zify
        rw [hnat]
        rcases lt_or_ge i 0 with hneg | hnonneg
        · rw [← Int.add_emod_right, Int.emod_eq_of_lt (by omega) (by omega)]
          omega
        · rw [Int.emod_eq_of_lt hnonneg (by omega)]
          omega
      rw [rtoi_signed hne, hlen, hnat]
      simp only [hwrap]
      split
      next hneg =>
        rw [← Int.add_emod_right, Int.emod_eq_of_lt (by omega) (by omega), Int.add_sub_cancel]
      next hnonneg => rw [Int.emod_eq_of_lt (by omega) (by omega)]

/-! ## Types -/

/-- `DW_TAG_pointer_type`. -/
def Tag.pointerType : Tag := .other "DW_TAG_pointer_type"

/-- `DW_TAG_typedef`. -/
def Tag.typedef : Tag := .other "DW_TAG_typedef"

/-- `DW_TAG_const_type`. -/
def Tag.constType : Tag := .other "DW_TAG_const_type"

/-- `DW_TAG_structure_type`. -/
def Tag.structureType : Tag := .other "DW_TAG_structure_type"

/-- `DW_TAG_member`. -/
def Tag.member : Tag := .other "DW_TAG_member"

/-- `DW_TAG_base_type`. -/
def Tag.baseType : Tag := .other "DW_TAG_base_type"

/-- The encodings that a base type may have. -/
inductive Encoding where
  | signed
  | signedChar
  | unsigned
  | unsignedChar
deriving DecidableEq, Repr

/-- The value of `DW_AT_encoding`, by its code. -/
def Encoding.ofCode? : Nat → Option Encoding
  | 5 => some .signed
  | 6 => some .signedChar
  | 7 => some .unsigned
  | 8 => some .unsignedChar
  | _ => none

/-- `signed` of a base type. -/
def Encoding.isSigned (e : Encoding) : Bool := e = .signed || e = .signedChar

/-- The encodings of a character. -/
def Encoding.isChar (e : Encoding) : Bool := e = .signedChar || e = .unsignedChar

/-- The name of a member: the value of `DW_AT_name`, which may be no text. -/
inductive FieldName where
  | text (s : String)
  | other (value : Attribute)
deriving DecidableEq, Repr

instance : Coe String FieldName := ⟨.text⟩

mutual

/-- `TypeObject`.  `named` is a typedef or a const type. -/
inductive TypeObj where
  | base (size : Nat) (encoding : Encoding)
  | pointer (size : Nat) (parent : TypeObj)
  | named (parent : TypeObj)
  | struct (size : Nat) (members : Members)

/-- The members of a structure, each with its name, offset and type. -/
inductive Members where
  | nil
  | cons (name : FieldName) (offset : Nat) (parent : TypeObj) (rest : Members)

end

/-- What `DW_AT_type` is: a reference within the compile unit, or a value of another
form. -/
inductive TypeRef where
  | ref (value : Nat)
  | other (form : String)
deriving DecidableEq, Repr

/-- The attributes of a type. -/
structure TypeAttrs where
  byteSize : Option Nat := none
  encoding : Option Nat := none
  dataMemberLocation : Option Nat := none
  typeRef : Option TypeRef := none

/-- An ELF file with the types of its debug information. -/
structure TypedElf where
  di : DebugInfo
  image : ElfImage
  rank : ElfSection → Nat
  typeAttrs : Dio → TypeAttrs

/-- A call that raises. -/
def orRaise {α : Type} : Except Raised α → Except Unread α
  | .ok a => .ok a
  | .error e => .error (.raised e)

/-- `dio.attributes[attr].value`. -/
def getAttr {α : Type} : Option α → Except Unread α
  | some a => .ok a
  | none => .error (.raised .keyError)

/-- The value of an attribute that is read as a name. -/
def Attribute.fieldName : Attribute → FieldName
  | .string s | .strp s | .otherStr s => .text s
  | value => .other value

namespace TypedElf

variable (elf : TypedElf)

/-- `DebugInfoObject.get_type` and `get_type_obj`, over the constructor of
`TypeObject`. -/
def getType (typeObject : Dio → Except Unread TypeObj) (dio : Dio) : Except Unread TypeObj := do
  match ← getAttr (elf.typeAttrs dio).typeRef with
  | .other form => throw (.raised (.exception ("Unknown attr form " ++ form)))
  | .ref value =>
      match ← orRaise (elf.di.getDioByPos (dio.cu.cuOffset + value)) with
      | none => throw (.raised .attributeError)
      | some dio => typeObject dio

/-- The members of a structure type. -/
def members (typeObject : Dio → Except Unread TypeObj) : List Dio → Except Unread Members
  | [] => .ok .nil
  | dio :: dios => do
      orRaise (pyAssert (dio.die.tag = .member))
      let name ← getAttr (dio.die.attr .name)
      let offset ← getAttr (elf.typeAttrs dio).dataMemberLocation
      let parent ← elf.getType typeObject dio
      let rest ← members typeObject dios
      pure (.cons name.fieldName offset parent rest)

/-- The constructor of `TypeObject`, with a number of levels. -/
def typeObject : Nat → Dio → Except Unread TypeObj
  | 0, _ => .error .steps
  | n + 1, dio => do
      let attrs := elf.typeAttrs dio
      if dio.die.tag = .pointerType then
        let size ← getAttr attrs.byteSize
        let parent ← elf.getType (typeObject n) dio
        pure (.pointer size parent)
      else if dio.die.tag = .typedef ∨ dio.die.tag = .constType then
        let parent ← elf.getType (typeObject n) dio
        pure (.named parent)
      else if dio.die.tag = .structureType then
        let size ← getAttr attrs.byteSize
        let members ← elf.members (typeObject n) (← orRaise dio.iterChildren)
        pure (.struct size members)
      else if dio.die.tag = .baseType then
        let _ ← getAttr (dio.die.attr .name)
        let size ← getAttr attrs.byteSize
        match Encoding.ofCode? (← getAttr attrs.encoding) with
        | none => throw (.raised .assertionError)
        | some encoding => pure (.base size encoding)
      else throw (.raised .assertionError)

end TypedElf

/-! ## Reading -/

/-- A value as it is read.  A string is its bytes, and a null pointer to one is
`None`. -/
inductive Value where
  | int (i : Int)
  | str (bytes : List Byte)
  | null
  | struct (fields : List (String × Value))

/-- `data[name] = value`. -/
def setItem (data : List (FieldName × Value)) (name : FieldName) (value : Value) :
    List (FieldName × Value) :=
  if name ∈ data.map Prod.fst then data.map fun e => if e.1 = name then (name, value) else e
  else data ++ [(name, value)]

/-- The arguments of `Struct(**data)`, whose names are texts. -/
def keywords : List (FieldName × Value) → Except Unread (List (String × Value))
  | [] => .ok []
  | (.text name, value) :: data => do
      let fields ← keywords data
      pure ((name, value) :: fields)
  | (.other _, _) :: _ => .error (.raised .typeError)

/-- `_read_int`. -/
def MemoryStream.readInt (s : MemoryStream) (size : Nat) (signed : Bool) :
    Except Unread (Int × MemoryStream) := do
  let (data, s) ← orRaise (s.read size false)
  pure (← rtoi data signed, s)

/-- `_read_ptr_char`, with a number of reads. -/
def MemoryStream.readStr (n : Nat) (ptr : Int) (s : MemoryStream) :
    Except Unread (Value × MemoryStream) :=
  match MemoryStream.readPtrChar n ptr.toNat s with
  | none => .error .steps
  | some (.error e) => .error (.raised e)
  | some (.ok (none, s)) => .ok (.null, s)
  | some (.ok (some bytes, s)) => .ok (.str bytes, s)

/-- The type a pointer leads to is a character type, and no other name of one. -/
def TypeObj.isChar : TypeObj → Bool
  | .base _ encoding => encoding.isChar
  | _ => false

mutual

/-- `TypeObject.read`, with a number of reads for a string. -/
def TypeObj.read (n : Nat) : TypeObj → MemoryStream → Except Unread (Value × MemoryStream)
  | .base size encoding, s => do
      let (i, s) ← s.readInt size encoding.isSigned
      pure (.int i, s)
  | .pointer size parent, s => do
      let (ptr, s) ← s.readInt size false
      if parent.isChar then MemoryStream.readStr n ptr s else pure (.int ptr, s)
  | .named parent, s => parent.read n s
  | .struct size members, s => do
      let pos := s.addr
      let (data, s) ← members.read n pos [] s
      let fields ← keywords data
      pure (.struct fields, s.seek (pos + size))

/-- The loop of `_read_struct`. -/
def Members.read (n pos : Nat) : Members → List (FieldName × Value) → MemoryStream →
    Except Unread (List (FieldName × Value) × MemoryStream)
  | .nil, data, s => .ok (data, s)
  | .cons name offset parent rest, data, s => do
      let (value, s) ← parent.read n (s.seek (pos + offset))
      rest.read n pos (setItem data name value) s

end

/-- `DebugInfoObject.get_value`, with a number of levels for the type and of reads
for a string. -/
def TypedElf.getValue (elf : TypedElf) (n : Nat) (dio : Dio) : Except Unread Value := do
  orRaise (pyAssert (dio.die.tag = .var))
  match ← orRaise (elf.di.getAddr dio) with
  | none => throw (.raised (.exception "Can't get object address"))
  | some addr =>
      let type ← elf.getType (elf.typeObject n) dio
      let (value, _) ← type.read n ⟨elf.image, elf.rank, addr⟩
      pure value

/-! ## Values in memory -/

/-- Bytes that stand in one section. -/
def ElfImage.HoldsWithin (elf : ElfImage) (addr : Nat) (data : List Byte) : Prop :=
  elf.Holds addr data ∧ ∃ sec ∈ allocSections elf.headers,
    sec.shAddr ≤ addr ∧ addr + data.length ≤ sec.shAddr + sec.shSize

/-- An integer that stands in memory. -/
def ElfImage.IntAt (elf : ElfImage) (addr size : Nat) (signed : Bool) (i : Int) : Prop :=
  0 < size ∧ FitsInt size signed i ∧ elf.HoldsWithin addr (intBytes size i)

/-- What a pointer to characters stands for. -/
def ElfImage.StrAt (elf : ElfImage) (ptr : Int) : Value → Prop
  | .null => ptr = 0
  | .str bytes => ptr ≠ 0 ∧ 0 ∉ bytes ∧ elf.Holds ptr.toNat (bytes ++ [0])
  | _ => False

mutual

/-- A value of a type stands in memory. -/
def TypeObj.Laid (elf : ElfImage) (addr : Nat) : TypeObj → Value → Prop
  | .base size encoding, v => ∃ i, v = .int i ∧ elf.IntAt addr size encoding.isSigned i
  | .pointer size parent, v => ∃ ptr, elf.IntAt addr size false ptr ∧
      if parent.isChar then elf.StrAt ptr v else v = .int ptr
  | .named parent, v => parent.Laid elf addr v
  | .struct _ members, v => ∃ fields, v = .struct fields ∧ members.Laid elf addr fields

/-- The values of the members of a structure stand at their offsets. -/
def Members.Laid (elf : ElfImage) (addr : Nat) : Members → List (String × Value) → Prop
  | .nil, fields => fields = []
  | .cons name offset parent rest, fields => ∃ key v fields', name = .text key ∧
      fields = (key, v) :: fields' ∧ parent.Laid elf (addr + offset) v ∧
      rest.Laid elf addr fields'

end

/-- `size`, which a typedef has from its type. -/
def TypeObj.byteSize : TypeObj → Nat
  | .base size _ => size
  | .pointer size _ => size
  | .named parent => parent.byteSize
  | .struct size _ => size

/-- The names of members. -/
def Members.names : Members → List FieldName
  | .nil => []
  | .cons name _ _ rest => name :: rest.names

mutual

/-- No structure has two members of one name. -/
def TypeObj.Distinct : TypeObj → Prop
  | .base _ _ => True
  | .pointer _ _ => True
  | .named parent => parent.Distinct
  | .struct _ members => members.names.Nodup ∧ members.Distinct

/-- The same of the types of members. -/
def Members.Distinct : Members → Prop
  | .nil => True
  | .cons _ _ parent rest => parent.Distinct ∧ rest.Distinct

end

/-! ## The round trip -/

/-- Two steps in a row give a result when both do. -/
theorem unread_bind {α β : Type} {x : Except Unread α} {f : α → Except Unread β} {b : β} :
    x >>= f = .ok b ↔ ∃ a, x = .ok a ∧ f a = .ok b := by
  cases x <;> simp [bind, Except.bind]

/-- Bytes of one section are read in one piece. -/
theorem MemoryStream.read_within {s : MemoryStream} (h : s.elf.Loadable) {data : List Byte}
    (hdata : s.elf.HoldsWithin s.addr data) (hne : data ≠ []) :
    s.read data.length false = .ok (data, s.seek (s.addr + data.length)) := by
  obtain ⟨hholds, sec, halloc, hbelow, habove⟩ := hdata
  have hpos : 0 < data.length := List.length_pos_iff.mpr hne
  have hsec : sec ∈ sectionsAt s.elf.headers s.addr :=
    mem_sectionsAt.mpr ⟨halloc, hbelow, by omega⟩
  obtain ⟨nextSec, hnext, hlast⟩ := MemoryStream.getSection_last h hsec hpos
  obtain ⟨data', hread, hlen, hholds'⟩ :=
    MemoryStream.readSection_eq h halloc hbelow data.length habove
  have hsame : data' = data :=
    (hholds'.isPrefix hholds (Nat.le_of_eq hlen)).eq_of_length hlen
  have hpart : s.readPart data.length = .ok (data, s.seek (s.addr + data.length)) := by
    rw [MemoryStream.readPart, if_neg (Nat.pos_iff_ne_zero.mp hpos), h.getSection_eq hsec]
    simp only [bind, Except.bind, hnext]
    rw [if_neg (not_not.mpr (hlast.mpr habove)), Nat.add_sub_cancel_left, hread, hsame]
    rfl
  rw [MemoryStream.read, hpart]
  simp [bind, Except.bind, pyAssert, pure, Except.pure]

theorem MemoryStream.readInt_eq {s : MemoryStream} (h : s.elf.Loadable) {size : Nat}
    {signed : Bool} {i : Int} (hi : s.elf.IntAt s.addr size signed i) :
    s.readInt size signed = .ok (i, s.seek (s.addr + size)) := by
  obtain ⟨hsize, hfits, hholds⟩ := hi
  have hlen : (intBytes size i).length = size := Bytes.length_leBytes _ _
  have hne : intBytes size i ≠ [] := by
    rw [← List.length_pos_iff, hlen]
    exact hsize
  have hread := MemoryStream.read_within h hholds hne
  rw [hlen] at hread
  rw [MemoryStream.readInt, hread]
  simp [orRaise, bind, Except.bind, rtoi_intBytes hsize hfits, pure, Except.pure]

/-- The length of a string. -/
def Value.strLen : Value → Nat
  | .str bytes => bytes.length
  | _ => 0

theorem MemoryStream.readStr_eq {s : MemoryStream} (h : s.elf.Loadable) {ptr : Int} {v : Value}
    (hnonneg : 0 ≤ ptr) (hv : s.elf.StrAt ptr v) {n : Nat} (hn : v.strLen < n) :
    MemoryStream.readStr n ptr s = .ok (v, s) := by
  cases v with
  | int i => exact hv.elim
  | struct fields => exact hv.elim
  | null =>
      have hzero : ptr = 0 := hv
      simp [MemoryStream.readStr, MemoryStream.readPtrChar, hzero]
  | str bytes =>
      obtain ⟨hne, hnull, hholds⟩ := hv
      have hptr : ptr.toNat ≠ 0 := by omega
      rw [MemoryStream.readStr, MemoryStream.readPtrChar_whole h hptr hnull hholds n hn]

theorem setItem_new {data : List (FieldName × Value)} {name : FieldName}
    (h : name ∉ data.map Prod.fst) (v : Value) : setItem data name v = data ++ [(name, v)] :=
  if_neg h

/-- The keys of a dictionary that stands for fields. -/
def keyed (fields : List (String × Value)) : List (FieldName × Value) :=
  fields.map fun e => (.text e.1, e.2)

/-- Keywords are made of a dictionary whose keys are all texts, and of no other. -/
theorem keywords_eq_ok {data : List (FieldName × Value)} {fields : List (String × Value)} :
    keywords data = .ok fields ↔ data = keyed fields := by
  induction data generalizing fields with
  | nil => cases fields <;> simp [keywords, keyed]
  | cons e data induction =>
      obtain ⟨name, v⟩ := e
      cases name with
      | other value => cases fields <;> simp [keywords, keyed]
      | text key =>
          rw [keywords, unread_bind]
          cases fields with
          | nil => simp [keyed, pure, Except.pure]
          | cons field fields =>
              obtain ⟨key', v'⟩ := field
              simp only [induction, pure, Except.pure, Except.ok.injEq, List.cons.injEq,
                Prod.mk.injEq, keyed, List.map_cons, FieldName.text.injEq]
              constructor
              · rintro ⟨rest, rfl, hhead, rfl⟩
                exact ⟨hhead, rfl⟩
              · rintro ⟨hhead, rfl⟩
                exact ⟨fields, rfl, hhead, rfl⟩

/-- The members after one have names that are new, when it does. -/
theorem names_new {data : List (FieldName × Value)} {name : FieldName} {offset : Nat}
    {parent : TypeObj} {rest : Members} (hname : name ∉ rest.names)
    (hnew : ∀ other ∈ (Members.cons name offset parent rest).names, other ∉ data.map Prod.fst)
    (v : Value) :
    ∀ other ∈ rest.names, other ∉ (data ++ [(name, v)]).map Prod.fst := by
  intro other hother hmem
  rw [List.map_append, List.mem_append] at hmem
  rcases hmem with hmem | hmem
  · exact hnew other (by simp [Members.names, hother]) hmem
  · have hsame : other = name := by simpa using hmem
    exact hname (hsame ▸ hother)

mutual

/-- What stands in memory is read, and the stream then stands behind it. -/
theorem TypeObj.read_laid {elf : ElfImage} (h : elf.Loadable) (rank : ElfSection → Nat) :
    (t : TypeObj) → {addr : Nat} → {v : Value} → t.Distinct →
    t.Laid elf addr v → ∃ m, ∀ n, m ≤ n →
      t.read n ⟨elf, rank, addr⟩ = .ok (v, ⟨elf, rank, addr + t.byteSize⟩)
  | .base size encoding, addr, v, _, hlaid => by
      obtain ⟨i, rfl, hi⟩ := hlaid
      refine ⟨0, fun n _ => ?_⟩
      rw [TypeObj.read, MemoryStream.readInt_eq h hi]
      rfl
  | .pointer size parent, addr, v, _, hlaid => by
      obtain ⟨ptr, hptr, hv⟩ := hlaid
      refine ⟨v.strLen + 1, fun n hn => ?_⟩
      rw [TypeObj.read, MemoryStream.readInt_eq h hptr]
      simp only [bind, Except.bind]
      split at hv
      next hchar =>
        rw [if_pos hchar]
        exact MemoryStream.readStr_eq (s := ⟨elf, rank, addr + size⟩) h hptr.2.1.1 hv hn
      next hchar =>
        rw [if_neg hchar, hv]
        rfl
  | .named parent, addr, v, hdistinct, hlaid => by
      simp only [TypeObj.read, TypeObj.byteSize]
      exact TypeObj.read_laid h rank parent hdistinct hlaid
  | .struct size members, addr, v, hdistinct, hlaid => by
      obtain ⟨fields, rfl, hfields⟩ := hlaid
      obtain ⟨m, hread⟩ := @Members.read_laid elf h rank members addr [] fields hdistinct.1
        hdistinct.2 hfields (fun _ _ hmem => nomatch hmem)
      refine ⟨m, fun n hn => ?_⟩
      obtain ⟨pos, hpos⟩ := hread n hn addr
      have hkeys : keywords ([] ++ keyed fields) = .ok fields := keywords_eq_ok.mpr rfl
      simp only [TypeObj.read, hpos, hkeys, bind, Except.bind]
      rfl

/-- The same of the members of a structure, whatever was read before them. -/
theorem Members.read_laid {elf : ElfImage} (h : elf.Loadable) (rank : ElfSection → Nat) :
    (ms : Members) → {addr : Nat} → {data : List (FieldName × Value)} →
    {fields : List (String × Value)} → ms.names.Nodup → ms.Distinct → ms.Laid elf addr fields →
    (∀ name ∈ ms.names, name ∉ data.map Prod.fst) → ∃ m, ∀ n, m ≤ n → ∀ pos, ∃ pos',
      ms.read n addr data ⟨elf, rank, pos⟩ = .ok (data ++ keyed fields, ⟨elf, rank, pos'⟩)
  | .nil, addr, data, fields, _, _, hlaid, _ => by
      refine ⟨0, fun n _ pos => ⟨pos, ?_⟩⟩
      rw [Members.read, show fields = [] from hlaid, keyed, List.map_nil, List.append_nil]
  | .cons name offset parent rest, addr, data, fields, hnodup, hdistinct, hlaid, hnew => by
      obtain ⟨key, v, fields', rfl, rfl, hv, hrest⟩ := hlaid
      rw [Members.names, List.nodup_cons] at hnodup
      have hname : .text key ∉ data.map Prod.fst := hnew _ (by simp [Members.names])
      obtain ⟨m₁, hfirst⟩ := TypeObj.read_laid h rank parent hdistinct.1 hv
      obtain ⟨m₂, hnext⟩ := Members.read_laid h rank rest hnodup.2 hdistinct.2 hrest
        (names_new hnodup.1 hnew v)
      refine ⟨max m₁ m₂, fun n hn pos => ?_⟩
      obtain ⟨pos', hpos'⟩ := hnext n (Nat.le_trans (Nat.le_max_right _ _) hn)
        (addr + offset + parent.byteSize)
      refine ⟨pos', ?_⟩
      have hvalue := hfirst n (Nat.le_trans (Nat.le_max_left _ _) hn)
      simp only [Members.read, MemoryStream.seek, hvalue, bind, Except.bind, setItem_new hname,
        hpos', keyed, List.map_cons, List.append_assoc, List.singleton_append]

end

/-! ## Nothing else is read -/

theorem orRaise_eq_ok {α : Type} {x : Except Raised α} {a : α} :
    orRaise x = .ok a ↔ x = .ok a := by
  cases x <;> simp [orRaise]

theorem ElfImage.Holds.append {elf : ElfImage} {addr : Nat} {front back : List Byte}
    (hfront : elf.Holds addr front) (hback : elf.Holds (addr + front.length) back) :
    elf.Holds addr (front ++ back) := by
  intro j b hj
  rcases Nat.lt_or_ge j front.length with hlt | hge
  · rw [List.getElem?_append_left hlt] at hj
    exact hfront j b hj
  · rw [List.getElem?_append_right hge] at hj
    have hbyte := hback _ b hj
    rwa [Nat.add_assoc, Nat.add_sub_cancel' hge] at hbyte

/-- Bytes are those of the integer that `rtoi` makes of them. -/
theorem intBytes_of_rtoi {data : List Byte} {signed : Bool} {i : Int} (hne : data ≠ [])
    (h : rtoi data signed = .ok i) :
    FitsInt data.length signed i ∧ intBytes data.length i = data := by
  have hlt : (Bytes.leNat data : Int) < 256 ^ data.length := by exact_mod_cast Bytes.leNat_lt data
  -- modulo the size, the integer is the number that the bytes stand for
  have hbytes : i % 256 ^ data.length = Bytes.leNat data → intBytes data.length i = data := by
    intro hmod
    rw [intBytes, hmod, Int.toNat_natCast, Bytes.leBytes_leNat]
  have hself : (Bytes.leNat data : Int) % 256 ^ data.length = Bytes.leNat data :=
    Int.emod_eq_of_lt (Int.natCast_nonneg _) hlt
  cases signed with
  | false =>
      rw [rtoi_unsigned] at h
      cases h
      exact ⟨⟨Int.natCast_nonneg _, hlt⟩, hbytes hself⟩
  | true =>
      rw [rtoi_signed hne] at h
      zify at h
      split at h
      next hneg =>
        cases h
        refine ⟨⟨by omega, by omega⟩, hbytes ?_⟩
        rw [Int.sub_emod_right, hself]
      next hpos =>
        cases h
        exact ⟨⟨by omega, by omega⟩, hbytes hself⟩

/-- A read that returns is one at an address of a section. -/
theorem MemoryStream.exists_section_of_read {s s' : MemoryStream} {size : Nat} (hsize : 0 < size)
    {allowShort : Bool} {data : List Byte} (hread : s.read size allowShort = .ok (data, s')) :
    ∃ sec, sec ∈ sectionsAt s.elf.headers s.addr := by
  cases hget : getSection s.rank s.elf.headers s.addr with
  | error e =>
      simp [MemoryStream.read, MemoryStream.readPart, Nat.pos_iff_ne_zero.mp hsize, hget, bind,
        Except.bind] at hread
  | ok found =>
      cases found with
      | none =>
          simp [MemoryStream.read, MemoryStream.readPart, Nat.pos_iff_ne_zero.mp hsize, hget, bind,
            Except.bind, throw, throwThe, MonadExceptOf.throw] at hread
      | some sec => exact ⟨sec, (mem_sectionsAt_of_getSection hget).1⟩

/-- A read that may not be short gives bytes of one section. -/
theorem MemoryStream.within_of_read {s s' : MemoryStream} (h : s.elf.Loadable) {size : Nat}
    (hsize : 0 < size) {data : List Byte} (hread : s.read size false = .ok (data, s')) :
    data.length = size ∧ s.elf.HoldsWithin s.addr data ∧ s' = s.seek (s.addr + size) := by
  have hnone : size ≠ 0 := Nat.pos_iff_ne_zero.mp hsize
  obtain ⟨sec, hsec⟩ := MemoryStream.exists_section_of_read hsize hread
  obtain ⟨halloc, hbelow, habove⟩ := mem_sectionsAt.mp hsec
  obtain ⟨nextSec, hnext, hlast⟩ := MemoryStream.getSection_last h hsec hsize
  rcases Nat.lt_or_ge (sec.shAddr + sec.shSize) (s.addr + size) with hover | hin
  · -- the read stops at the end of the section and is short
    obtain ⟨data', hdata, hlen, _⟩ := MemoryStream.readSection_eq h halloc hbelow
      (sec.shAddr + sec.shSize - s.addr) (by omega)
    have hne : nextSec ≠ some sec := fun heq => Nat.not_le.mpr hover (hlast.mp heq)
    have hshort : data'.length < size := by omega
    simp [MemoryStream.read, MemoryStream.readPart, hnone, h.getSection_eq hsec, hnext, hne, hdata,
      bind, Except.bind, pure, Except.pure, pyAssert, hshort, Nat.le_of_lt hshort, throw,
      throwThe, MonadExceptOf.throw] at hread
  · obtain ⟨data', _, hlen, hholds⟩ :=
      MemoryStream.readSection_eq h halloc hbelow size hin
    have hwithin : s.elf.HoldsWithin s.addr data' := ⟨hholds, sec, halloc, hbelow, by omega⟩
    have hne : data' ≠ [] := List.length_pos_iff.mp (by omega)
    have heq := MemoryStream.read_within h hwithin hne
    rw [hlen, hread] at heq
    cases heq
    exact ⟨hlen, hwithin, rfl⟩

/-- A scan that ends gives the bytes in front of a null byte. -/
theorem MemoryStream.holds_of_scan {s s' : MemoryStream} (h : s.elf.Loadable) {n : Nat}
    {chunks bytes : List Byte} (hscan : MemoryStream.scan n s chunks = some (.ok (bytes, s'))) :
    ∃ rest, bytes = chunks ++ rest ∧ 0 ∉ rest ∧ s.elf.Holds s.addr (rest ++ [0]) ∧
      ∃ addr, s' = s.seek addr := by
  induction n generalizing s chunks with
  | zero => cases hscan
  | succ n induction =>
      cases hread : s.read (1 <<< 10) true with
      | error e =>
          rw [MemoryStream.scan, hread] at hscan
          cases hscan
      | ok r =>
          obtain ⟨sec, hsec⟩ := MemoryStream.exists_section_of_read (by simp) hread
          obtain ⟨data, heq, _, hdata⟩ := MemoryStream.read_eq h hsec (1 <<< 10) (by simp)
          rw [MemoryStream.scan, heq] at hscan
          dsimp only at hscan
          split at hscan
          next nullIdx hnull =>
            cases hscan
            obtain ⟨hlt, hzero, hfirst⟩ := List.idxOf?_eq_some_iff.mp hnull
            refine ⟨data.take nullIdx, rfl, ?_, ?_, _, rfl⟩
            · intro hmem
              obtain ⟨j, hj, hat⟩ := List.mem_take_iff_getElem.mp hmem
              exact hfirst j (by omega) hat
            · have hfront : data.take nullIdx ++ [0] = data.take (nullIdx + 1) := by
                rw [List.take_succ_eq_append_getElem hlt, hzero]
              rw [hfront]
              intro j b hj
              have hlt' := (List.getElem?_eq_some_iff.mp hj).1
              rw [List.length_take] at hlt'
              rw [List.getElem?_take_of_lt (by omega)] at hj
              exact hdata j b hj
          next hnull =>
            obtain ⟨rest, rfl, hrest, hholds, addr, rfl⟩ :=
              induction (s := s.seek (s.addr + data.length)) h hscan
            refine ⟨data ++ rest, List.append_assoc _ _ _, ?_, ?_, addr, rfl⟩
            · rw [List.mem_append, not_or]
              exact ⟨List.idxOf?_eq_none_iff.mp hnull, hrest⟩
            · rw [List.append_assoc]
              exact ElfImage.Holds.append hdata hholds

theorem MemoryStream.intAt_of_readInt {s s' : MemoryStream} (h : s.elf.Loadable) {size : Nat}
    (hsize : 0 < size) {signed : Bool} {i : Int} (hread : s.readInt size signed = .ok (i, s')) :
    s.elf.IntAt s.addr size signed i ∧ s' = s.seek (s.addr + size) := by
  obtain ⟨⟨data, s₁⟩, hdata, hrest⟩ := unread_bind.mp hread
  obtain ⟨i', hi, hpair⟩ := unread_bind.mp hrest
  cases hpair
  obtain ⟨hlen, hwithin, hs'⟩ := MemoryStream.within_of_read h hsize (orRaise_eq_ok.mp hdata)
  have hne : data ≠ [] := List.length_pos_iff.mp (by omega)
  obtain ⟨hfits, hbytes⟩ := intBytes_of_rtoi hne hi
  rw [hlen] at hfits hbytes
  refine ⟨⟨hsize, hfits, ?_⟩, hs'⟩
  rw [hbytes]
  exact hwithin

theorem MemoryStream.strAt_of_readStr {s s' : MemoryStream} (h : s.elf.Loadable) {n : Nat}
    {ptr : Int} {v : Value} (hnonneg : 0 ≤ ptr)
    (hread : MemoryStream.readStr n ptr s = .ok (v, s')) : s.elf.StrAt ptr v ∧ s' = s := by
  rw [MemoryStream.readStr, MemoryStream.readPtrChar] at hread
  rcases Nat.eq_zero_or_pos ptr.toNat with hzero | hpos
  · rw [if_pos hzero] at hread
    cases hread
    have hnull : ptr = 0 := by omega
    exact ⟨hnull, rfl⟩
  · rw [if_neg (Nat.pos_iff_ne_zero.mp hpos)] at hread
    cases hscan : MemoryStream.scan n (s.seek ptr.toNat) [] with
    | none =>
        rw [hscan] at hread
        cases hread
    | some r =>
        rw [hscan] at hread
        cases r with
        | error e => cases hread
        | ok r =>
            obtain ⟨bytes, s₁⟩ := r
            cases hread
            obtain ⟨rest, rfl, hnull, hholds, addr, rfl⟩ :=
              MemoryStream.holds_of_scan (s := s.seek ptr.toNat) h hscan
            exact ⟨⟨by omega, hnull, hholds⟩, rfl⟩

mutual

/-- The integers and pointers of a type have a size. -/
def TypeObj.Sized : TypeObj → Prop
  | .base size _ => 0 < size
  | .pointer size _ => 0 < size
  | .named parent => parent.Sized
  | .struct _ members => members.Sized

/-- The same of the types of members. -/
def Members.Sized : Members → Prop
  | .nil => True
  | .cons _ _ parent rest => parent.Sized ∧ rest.Sized

end

mutual

/-- What is read stands in memory. -/
theorem TypeObj.laid_of_read {elf : ElfImage} (h : elf.Loadable) (rank : ElfSection → Nat) :
    (t : TypeObj) → {n addr : Nat} → {v : Value} → {s' : MemoryStream} → t.Distinct → t.Sized →
    t.read n ⟨elf, rank, addr⟩ = .ok (v, s') → t.Laid elf addr v ∧ ∃ addr', s' = ⟨elf, rank, addr'⟩
  | .base size encoding, n, addr, v, s', _, hsized, hread => by
      obtain ⟨⟨i, s₁⟩, hint, hpair⟩ := unread_bind.mp hread
      cases hpair
      obtain ⟨hi, rfl⟩ := MemoryStream.intAt_of_readInt (s := ⟨elf, rank, addr⟩) h hsized hint
      exact ⟨⟨i, rfl, hi⟩, _, rfl⟩
  | .pointer size parent, n, addr, v, s', _, hsized, hread => by
      obtain ⟨⟨ptr, s₁⟩, hint, hrest⟩ := unread_bind.mp hread
      obtain ⟨hptr, rfl⟩ := MemoryStream.intAt_of_readInt (s := ⟨elf, rank, addr⟩) h hsized hint
      dsimp only at hrest
      split at hrest
      next hchar =>
        obtain ⟨hstr, rfl⟩ := MemoryStream.strAt_of_readStr (s := ⟨elf, rank, addr + size⟩) h
          hptr.2.1.1 hrest
        refine ⟨⟨ptr, hptr, ?_⟩, _, rfl⟩
        rw [if_pos hchar]
        exact hstr
      next hchar =>
        cases hrest
        refine ⟨⟨ptr, hptr, ?_⟩, _, rfl⟩
        rw [if_neg hchar]
  | .named parent, n, addr, v, s', hdistinct, hsized, hread => by
      exact TypeObj.laid_of_read h rank parent hdistinct hsized hread
  | .struct size members, n, addr, v, s', hdistinct, hsized, hread => by
      obtain ⟨⟨data, s₁⟩, hdata, hrest⟩ := unread_bind.mp hread
      obtain ⟨fields, hkeys, hpair⟩ := unread_bind.mp hrest
      cases hpair
      obtain ⟨data', rfl, hlaid, addr', rfl⟩ := Members.laid_of_read h rank members hdistinct.1
        hdistinct.2 hsized (by simp) hdata
      exact ⟨⟨fields, rfl, hlaid fields (keywords_eq_ok.mp hkeys)⟩, _, rfl⟩

/-- The same of the members of a structure, whatever was read before them. -/
theorem Members.laid_of_read {elf : ElfImage} (h : elf.Loadable) (rank : ElfSection → Nat) :
    (ms : Members) → {n pos addr : Nat} → {data data' : List (FieldName × Value)} →
    {s' : MemoryStream} → ms.names.Nodup → ms.Distinct → ms.Sized →
    (∀ name ∈ ms.names, name ∉ data.map Prod.fst) →
    ms.read n pos data ⟨elf, rank, addr⟩ = .ok (data', s') →
    ∃ rest, data' = data ++ rest ∧ (∀ fields, rest = keyed fields → ms.Laid elf pos fields) ∧
      ∃ addr', s' = ⟨elf, rank, addr'⟩
  | .nil, n, pos, addr, data, data', s', _, _, _, _, hread => by
      cases hread
      refine ⟨[], (List.append_nil _).symm, fun fields hfields => ?_, _, rfl⟩
      exact List.map_eq_nil_iff.mp hfields.symm
  | .cons name offset parent rest, n, pos, addr, data, data', s', hnodup, hdistinct, hsized, hnew,
      hread => by
      obtain ⟨⟨v, s₁⟩, hvalue, hrest⟩ := unread_bind.mp hread
      rw [Members.names, List.nodup_cons] at hnodup
      obtain ⟨hv, addr₁, rfl⟩ := TypeObj.laid_of_read h rank parent hdistinct.1 hsized.1 hvalue
      have hname : name ∉ data.map Prod.fst := hnew name (by simp [Members.names])
      simp only [setItem_new hname] at hrest
      obtain ⟨read, rfl, hlaid, addr', rfl⟩ := Members.laid_of_read h rank rest hnodup.2
        hdistinct.2 hsized.2 (names_new hnodup.1 hnew v) hrest
      refine ⟨(name, v) :: read, by simp, fun fields hfields => ?_, _, rfl⟩
      cases fields with
      | nil => cases hfields
      | cons field fields =>
          obtain ⟨key, v'⟩ := field
          cases hfields
          exact ⟨key, _, fields, rfl, rfl, hv, hlaid fields rfl⟩

end

theorem ElfImage.holds_of_bytes {elf : ElfImage} {addr : Nat} {data : List Byte}
    (h : ∀ j < data.length, elf.byteAt (addr + j) = data[j]?) : elf.Holds addr data := by
  intro j b hj
  rw [h j (List.getElem?_eq_some_iff.mp hj).1, hj]

/-- A number below the half of the range fits, with a sign or without. -/
theorem fitsInt_of_lt {size : Nat} {signed : Bool} {i : Int} (hnonneg : 0 ≤ i)
    (hlt : 2 * i < 256 ^ size) : FitsInt size signed i := by
  have hpos : (0 : Int) < 256 ^ size := by positivity
  cases signed with
  | false => exact ⟨hnonneg, by omega⟩
  | true => exact ⟨by omega, hlt⟩

theorem ElfImage.intAt_of_bytes {elf : ElfImage} {sec : ElfSection}
    (hsec : sec ∈ allocSections elf.headers) {addr size : Nat} {signed : Bool} {i : Int}
    (hsize : 0 < size) (hfits : FitsInt size signed i)
    (hbytes : ∀ j < size, elf.byteAt (addr + j) = (intBytes size i)[j]?)
    (hlow : sec.shAddr ≤ addr) (hhigh : addr + size ≤ sec.shAddr + sec.shSize) :
    elf.IntAt addr size signed i := by
  have hlen : (intBytes size i).length = size := Bytes.length_leBytes _ _
  have hholds : elf.Holds addr (intBytes size i) :=
    ElfImage.holds_of_bytes (fun j hj => hbytes j (hlen ▸ hj))
  exact ⟨hsize, hfits, hholds, sec, hsec, hlow, hlen.symm ▸ hhigh⟩

namespace TypedElf

variable {elf : TypedElf} {f g : Dio → Except Unread TypeObj}

theorem getType_mono (hfg : ∀ dio t, f dio = .ok t → g dio = .ok t) {dio : Dio} {t : TypeObj}
    (h : elf.getType f dio = .ok t) : elf.getType g dio = .ok t := by
  obtain ⟨ref, href, h⟩ := unread_bind.mp h
  refine unread_bind.mpr ⟨ref, href, ?_⟩
  cases ref with
  | other form => exact h
  | ref value =>
      obtain ⟨found, hfound, h⟩ := unread_bind.mp h
      refine unread_bind.mpr ⟨found, hfound, ?_⟩
      cases found with
      | none => exact h
      | some dio => exact hfg dio t h

theorem members_mono (hfg : ∀ dio t, f dio = .ok t → g dio = .ok t) {dios : List Dio}
    {ms : Members} (h : elf.members f dios = .ok ms) : elf.members g dios = .ok ms := by
  induction dios generalizing ms with
  | nil => exact h
  | cons dio dios induction =>
      obtain ⟨u, hassert, h⟩ := unread_bind.mp h
      obtain ⟨name, hname, h⟩ := unread_bind.mp h
      obtain ⟨offset, hoffset, h⟩ := unread_bind.mp h
      obtain ⟨parent, hparent, h⟩ := unread_bind.mp h
      obtain ⟨rest, hrest, h⟩ := unread_bind.mp h
      exact unread_bind.mpr ⟨u, hassert, unread_bind.mpr ⟨name, hname, unread_bind.mpr ⟨offset,
        hoffset, unread_bind.mpr ⟨parent, getType_mono hfg hparent, unread_bind.mpr ⟨rest,
        induction hrest, h⟩⟩⟩⟩⟩

/-- With more levels, a type that was finished is the same. -/
theorem typeObject_mono {n m : Nat} (hnm : n ≤ m) {dio : Dio} {t : TypeObj}
    (h : elf.typeObject n dio = .ok t) : elf.typeObject m dio = .ok t := by
  induction n generalizing m dio t with
  | zero => cases h
  | succ n induction =>
      obtain ⟨m, rfl⟩ : ∃ k, m = k + 1 := ⟨m - 1, by omega⟩
      have hfg : ∀ dio t, elf.typeObject n dio = .ok t → elf.typeObject m dio = .ok t :=
        fun dio t => induction (Nat.le_of_succ_le_succ hnm)
      rw [typeObject] at h ⊢
      split at h
      next htag =>
        rw [if_pos htag]
        obtain ⟨size, hsize, h⟩ := unread_bind.mp h
        obtain ⟨parent, hparent, h⟩ := unread_bind.mp h
        exact unread_bind.mpr ⟨size, hsize, unread_bind.mpr ⟨parent, getType_mono hfg hparent, h⟩⟩
      next hpointer =>
        rw [if_neg hpointer]
        split at h
        next htag =>
          rw [if_pos htag]
          obtain ⟨parent, hparent, h⟩ := unread_bind.mp h
          exact unread_bind.mpr ⟨parent, getType_mono hfg hparent, h⟩
        next hnamed =>
          rw [if_neg hnamed]
          split at h
          next htag =>
            rw [if_pos htag]
            obtain ⟨size, hsize, h⟩ := unread_bind.mp h
            obtain ⟨dios, hdios, h⟩ := unread_bind.mp h
            obtain ⟨ms, hms, h⟩ := unread_bind.mp h
            exact unread_bind.mpr ⟨size, hsize, unread_bind.mpr ⟨dios, hdios,
              unread_bind.mpr ⟨ms, members_mono hfg hms, h⟩⟩⟩
          next hstruct =>
            rw [if_neg hstruct]
            exact h

end TypedElf

/-! ## Types that lead back to themselves -/

namespace TypedElf

variable (elf : TypedElf)

/-- The constructor calls `get_type` on an object: on the one it is for, or on the
members of a structure. -/
def AsksType (dio asked : Dio) : Prop :=
  (dio.die.tag ∈ [Tag.pointerType, .typedef, .constType] ∧ asked = dio) ∨
    (dio.die.tag = .structureType ∧ ∃ dios, dio.iterChildren = .ok dios ∧ asked ∈ dios)

/-- The type of an object needs the type of another one. -/
def Needs (dio other : Dio) : Prop :=
  ∃ asked value, AsksType dio asked ∧ (elf.typeAttrs asked).typeRef = some (.ref value) ∧
    elf.di.getDioByPos (asked.cu.cuOffset + value) = .ok (some other)

variable {elf}

theorem getType_needs {f : Dio → Except Unread TypeObj} {asked other : Dio} {value : Nat}
    {t : TypeObj} (href : (elf.typeAttrs asked).typeRef = some (.ref value))
    (hpos : elf.di.getDioByPos (asked.cu.cuOffset + value) = .ok (some other))
    (h : elf.getType f asked = .ok t) : f other = .ok t := by
  simpa [getType, href, hpos, getAttr, orRaise, bind, Except.bind] using h

theorem members_asks {f : Dio → Except Unread TypeObj} {dios : List Dio} {ms : Members}
    (h : elf.members f dios = .ok ms) {asked : Dio} (hasked : asked ∈ dios) :
    ∃ t, elf.getType f asked = .ok t := by
  induction dios generalizing ms with
  | nil => cases hasked
  | cons dio dios induction =>
      obtain ⟨_, -, h⟩ := unread_bind.mp h
      obtain ⟨_, -, h⟩ := unread_bind.mp h
      obtain ⟨_, -, h⟩ := unread_bind.mp h
      obtain ⟨parent, hparent, h⟩ := unread_bind.mp h
      obtain ⟨rest, hrest, -⟩ := unread_bind.mp h
      rcases List.mem_cons.mp hasked with rfl | hasked
      · exact ⟨parent, hparent⟩
      · exact induction hrest hasked

/-- A type that is finished has finished the types it asks for. -/
theorem typeObject_asks {n : Nat} {dio asked : Dio} {t : TypeObj}
    (h : elf.typeObject (n + 1) dio = .ok t) (hasks : AsksType dio asked) :
    ∃ t', elf.getType (elf.typeObject n) asked = .ok t' := by
  rw [typeObject] at h
  rcases hasks with ⟨htag, rfl⟩ | ⟨htag, dios, hdios, hmem⟩
  · split at h
    · obtain ⟨_, -, h⟩ := unread_bind.mp h
      obtain ⟨parent, hparent, -⟩ := unread_bind.mp h
      exact ⟨parent, hparent⟩
    next hpointer =>
      rw [if_pos (by simpa [hpointer] using htag)] at h
      obtain ⟨parent, hparent, -⟩ := unread_bind.mp h
      exact ⟨parent, hparent⟩
  · rw [if_neg (by rw [htag]; decide), if_neg (by rw [htag]; decide), if_pos htag] at h
    obtain ⟨_, -, h⟩ := unread_bind.mp h
    obtain ⟨dios', hdios', h⟩ := unread_bind.mp h
    obtain ⟨ms, hms, -⟩ := unread_bind.mp h
    rw [hdios] at hdios'
    cases hdios'
    exact members_asks hms hmem

theorem typeObject_needs {n : Nat} {dio other : Dio} {t : TypeObj}
    (h : elf.typeObject n dio = .ok t) (hneeds : Relation.TransGen elf.Needs dio other) :
    ∃ m < n, ∃ t', elf.typeObject m other = .ok t' := by
  have hstep : ∀ {n : Nat} {dio other : Dio} {t : TypeObj}, elf.typeObject n dio = .ok t →
      elf.Needs dio other → ∃ m < n, ∃ t', elf.typeObject m other = .ok t' := by
    rintro n dio other t h ⟨asked, value, hasks, href, hpos⟩
    cases n with
    | zero => cases h
    | succ n =>
        obtain ⟨t', ht'⟩ := typeObject_asks h hasks
        exact ⟨n, Nat.lt_succ_self n, t', getType_needs href hpos ht'⟩
  induction hneeds with
  | single hneeds => exact hstep h hneeds
  | tail _ hneeds induction =>
      obtain ⟨m, hm, t', ht'⟩ := induction
      obtain ⟨k, hk, t'', ht''⟩ := hstep ht' hneeds
      exact ⟨k, Nat.lt_trans hk hm, t'', ht''⟩

/-- A type that leads back to itself is never finished. -/
theorem typeObject_cycle {dio : Dio} (hcycle : Relation.TransGen elf.Needs dio dio) (n : Nat)
    (t : TypeObj) : elf.typeObject n dio ≠ .ok t := by
  induction n using Nat.strong_induction_on generalizing t with
  | _ n induction =>
      intro h
      obtain ⟨m, hm, t', ht'⟩ := typeObject_needs h hcycle
      exact induction m hm t' ht'

end TypedElf

/-- The unit of `struct node { struct node *next; }`. -/
def nodeUnit : CU :=
  nestedUnit 0 (unitDie "a.c") ⟨.structureType, []⟩ ⟨.member, [(.name, .strp "next")]⟩
    ⟨.pointerType, []⟩

/-- The types of the unit. -/
def nodeTypes : TypedElf where
  di := ⟨[(0, some nodeUnit), (1, none)], fun _ => none⟩
  image := ⟨[], []⟩
  rank := fun _ => 0
  typeAttrs := fun dio =>
    match dio.diePos with
    | 21 => { byteSize := some 8 }
    | 30 => { dataMemberLocation := some 0, typeRef := some (.ref 41) }
    | 41 => { byteSize := some 8, typeRef := some (.ref 21) }
    | _ => {}

/-- The structure of the unit. -/
def nodeStruct : Dio := nodeUnit.dio ⟨21, ⟨.structureType, []⟩, some 11⟩

theorem nodeTypes_unfinished :
    Relation.TransGen nodeTypes.Needs nodeStruct nodeStruct ∧
      ∀ n t, nodeTypes.typeObject n nodeStruct ≠ .ok t := by
  have hpointer : nodeTypes.Needs nodeStruct (nodeUnit.dio ⟨41, ⟨.pointerType, []⟩, some 11⟩) :=
    ⟨nodeUnit.dio ⟨30, ⟨.member, [(.name, .strp "next")]⟩, some 21⟩, 41,
      .inr ⟨rfl, _, rfl, List.mem_singleton.mpr rfl⟩, rfl, rfl⟩
  have hstruct : nodeTypes.Needs (nodeUnit.dio ⟨41, ⟨.pointerType, []⟩, some 11⟩) nodeStruct :=
    ⟨_, 21, .inl ⟨List.mem_cons_self, rfl⟩, rfl, rfl⟩
  have hcycle : Relation.TransGen nodeTypes.Needs nodeStruct nodeStruct :=
    Relation.TransGen.tail (.single hpointer) hstruct
  exact ⟨hcycle, TypedElf.typeObject_cycle hcycle⟩

/-! ## Values of variables -/

/-- A variable whose type is finished, whose address is known and whose value
stands there is read as this value. -/
theorem getValue_laid {elf : TypedElf} (h : elf.image.Loadable) {dio : Dio} {addr k : Nat}
    {t : TypeObj} {v : Value} (htag : dio.die.tag = .var)
    (haddr : elf.di.getAddr dio = .ok (some addr))
    (htype : elf.getType (elf.typeObject k) dio = .ok t) (hdistinct : t.Distinct)
    (hlaid : t.Laid elf.image addr v) : ∃ m, ∀ n, m ≤ n → elf.getValue n dio = .ok v := by
  obtain ⟨m, hread⟩ := TypeObj.read_laid h elf.rank t hdistinct hlaid
  refine ⟨max k m, fun n hn => ?_⟩
  have htype' : elf.getType (elf.typeObject n) dio = .ok t :=
    TypedElf.getType_mono (fun _ _ => TypedElf.typeObject_mono (by omega)) htype
  have hvalue := hread n (by omega)
  simp only [TypedElf.getValue, htag, haddr, htype', hvalue, orRaise, pyAssert, decide_true,
    if_true,
    bind, Except.bind, pure, Except.pure]

end Nsb
