import Nsb.Generator.DieLookup
import Nsb.Generator.FileScopes
import Nsb.Generator.TypeObject

/-!
# Metadata in the patch

The objects that the macros of `vzp.h` put into a patch, and how `read_patch` gets
them back.  A `VZP_FILE`, a reference and an alias are constant structures that
begin with a header.  Their types are those of the header file, with the offsets
that the x86-64 ABI gives their members.

`VzpMeta.Stored` says that an object is in the memory of the patch.
`vzpMeta_value` is the round trip: `get_value` on the variable gives the fields
that the macro was given, so the metadata of `read_patch` are those of the source.
-/

namespace Nsb

open Preorder (Entry EntryTree)

/-! ## The types of `vzp.h` -/

/-- `char`. -/
def charType : TypeObj := .base 1 .signedChar

/-- `char *`. -/
def charPtr : TypeObj := .pointer 8 charType

/-- `VZP_X_HEADER_T`. -/
def VZP_X_HEADER_T : TypeObj :=
  .named (.struct 24 (.cons "tag" 0 charType (.cons "filename" 8 charPtr
    (.cons "line" 16 (.base 4 .unsigned) .nil))))

/-- `VZP_X_FILE_T`. -/
def VZP_X_FILE_T : TypeObj :=
  .named (.struct 32 (.cons "header" 0 VZP_X_HEADER_T (.cons "target_filename" 24 charPtr .nil)))

/-- `VZP_X_SYMBOL_T`. -/
def VZP_X_SYMBOL_T : TypeObj :=
  .named (.struct 48 (.cons "header" 0 VZP_X_HEADER_T (.cons "target_filename" 24 charPtr
    (.cons "symbol" 32 charPtr (.cons "visibility" 40 (.base 4 .signed) .nil)))))

/-- `VZP_X_ALIAS_T`. -/
def VZP_X_ALIAS_T : TypeObj :=
  .named (.struct 40 (.cons "header" 0 VZP_X_HEADER_T (.cons "patch_symbol" 24 charPtr
    (.cons "target_symbol" 32 charPtr .nil))))

/-! ## Objects -/

/-- What a macro puts beside the header.  Texts are their bytes. -/
inductive VzpBody where
  | file (targetFilename : Option (List Byte))
  | symbol (targetFilename : Option (List Byte)) (symbol : List Byte) (visibility : Int)
  | symAlias (patchSymbol targetSymbol : List Byte)

/-- An object of `vzp.h`. -/
structure VzpMeta where
  filename : List Byte
  line : Nat
  body : VzpBody

/-- `VZP_TAG_FILE`, `VZP_TAG_SYMBOL` and `VZP_TAG_ALIAS`. -/
def VzpBody.tag : VzpBody → Int
  | .file _ => 1
  | .symbol _ _ _ => 2
  | .symAlias _ _ => 3

/-- The type of the variable. -/
def VzpBody.type : VzpBody → TypeObj
  | .file _ => VZP_X_FILE_T
  | .symbol _ _ _ => VZP_X_SYMBOL_T
  | .symAlias _ _ => VZP_X_ALIAS_T

/-- A text, or a null pointer. -/
def optStr : Option (List Byte) → Value
  | none => .null
  | some bytes => .str bytes

/-- The fields after the header. -/
def VzpBody.fields : VzpBody → List (String × Value)
  | .file targetFilename => [("target_filename", optStr targetFilename)]
  | .symbol targetFilename sym visibility =>
      [("target_filename", optStr targetFilename), ("symbol", .str sym),
        ("visibility", .int visibility)]
  | .symAlias patchSymbol targetSymbol =>
      [("patch_symbol", .str patchSymbol), ("target_symbol", .str targetSymbol)]

/-- The object as the macro initializes it. -/
def VzpMeta.value (m : VzpMeta) : Value :=
  .struct (("header", .struct [("tag", .int m.body.tag), ("filename", .str m.filename),
    ("line", .int m.line)]) :: m.body.fields)

/-- The object stands in memory. -/
def VzpMeta.Stored (elf : ElfImage) (addr : Nat) (m : VzpMeta) : Prop :=
  m.body.type.Laid elf addr m.value

/-! ## What `read_patch` makes of them -/

/-- An attribute of a `Struct`. -/
def Value.field (name : String) : Value → Option Value
  | .struct fields => fields.lookup name
  | _ => none

/-- An integer. -/
def Value.int? : Value → Option Int
  | .int i => some i
  | _ => none

/-- A text. -/
def bytesText (bytes : List Byte) : String := String.ofList (bytes.map fun b => Char.ofNat b.toNat)

/-- A text that is not `None`. -/
def Value.text? : Value → Option String
  | .str bytes => some (bytesText bytes)
  | _ => none

/-- A text or `None`. -/
def Value.optText? : Value → Option (Option String)
  | .str bytes => some (some (bytesText bytes))
  | .null => some none
  | _ => none

/-- The fields of a metadata object that `read_patch` uses, by `header.tag`. -/
def MetaBody.ofValue (tag : Int) (v : Value) : Option MetaBody :=
  if tag = 1 then do
    pure (.tagFile (← (← v.field "target_filename").optText?))
  else if tag = 2 then do
    let symbol ← (← v.field "symbol").text?
    let visibility ← (← v.field "visibility").int?
    pure (.tagSymbol symbol visibility (← (← v.field "target_filename").optText?))
  else if tag = 3 then do
    let patchSymbol ← (← v.field "patch_symbol").text?
    pure (.tagAlias patchSymbol (← (← v.field "target_symbol").text?))
  else pure (.other tag)

/-- A value as metadata. -/
def Metadata.ofValue (v : Value) : Option Metadata := do
  let header ← v.field "header"
  let tag ← (← header.field "tag").int?
  let filename ← (← header.field "filename").text?
  let line ← (← header.field "line").int?
  pure ⟨filename, line.toNat, ← MetaBody.ofValue tag v⟩

/-- What the macro declares. -/
def VzpBody.declares : VzpBody → MetaBody
  | .file targetFilename => .tagFile (targetFilename.map bytesText)
  | .symbol targetFilename sym visibility =>
      .tagSymbol (bytesText sym) visibility (targetFilename.map bytesText)
  | .symAlias patchSymbol targetSymbol => .tagAlias (bytesText patchSymbol) (bytesText targetSymbol)

/-- What the macro declares, with its place. -/
def VzpMeta.metadata (m : VzpMeta) : Metadata := ⟨bytesText m.filename, m.line, m.body.declares⟩

theorem optText?_optStr (t : Option (List Byte)) :
    (optStr t).optText? = some (t.map bytesText) := by
  cases t <;> rfl

theorem metadata_ofValue (m : VzpMeta) : Metadata.ofValue m.value = some m.metadata := by
  obtain ⟨filename, line, body⟩ := m
  cases body <;>
    simp [Metadata.ofValue, MetaBody.ofValue, VzpMeta.value, VzpMeta.metadata, VzpBody.tag,
      VzpBody.fields, VzpBody.declares, Value.field, Value.int?, Value.text?, optText?_optStr,
      List.lookup_cons]

theorem VzpBody.type_distinct (body : VzpBody) : body.type.Distinct := by
  cases body <;>
    simp [VzpBody.type, VZP_X_FILE_T, VZP_X_SYMBOL_T, VZP_X_ALIAS_T, VZP_X_HEADER_T, charPtr,
      charType, TypeObj.Distinct, Members.Distinct, Members.names]

/-- The metadata of a variable that a macro of `vzp.h` put into the patch are those
that the macro was given. -/
theorem vzpMeta_value {elf : TypedElf} (h : elf.image.Loadable) {dio : Dio} {addr k : Nat}
    {m : VzpMeta} (htag : dio.die.tag = .var) (haddr : elf.di.getAddr dio = .ok (some addr))
    (htype : elf.getType (elf.typeObject k) dio = .ok (.named m.body.type))
    (hstored : m.Stored elf.image addr) :
    ∃ l, ∀ n, l ≤ n → ∃ v, elf.getValue n dio = .ok v ∧ Metadata.ofValue v = some m.metadata := by
  obtain ⟨l, hl⟩ := getValue_laid h htag haddr htype m.body.type_distinct hstored
  exact ⟨l, fun n hn => ⟨m.value, hl n hn, metadata_ofValue m⟩⟩

/-! ## A `VZP_FILE` -/

/-- A DIE of a type. -/
def typeDie (tag : Tag) : Die := ⟨tag, []⟩

/-- A DIE with a name. -/
def namedDie (tag : Tag) (name : String) : Die := ⟨tag, [(.name, .strp name)]⟩

/-- The entries of a unit with a `VZP_FILE`, from the offset 11 on, each of one
byte. -/
def fileUnitDies : List (Option (Die × Bool)) :=
  [some (unitDie "a.c", true), some (varDie "vzpatch_file_0" 0x4000, false),
    some (typeDie .constType, false), some (typeDie .typedef, false),
    some (typeDie .structureType, true), some (namedDie .member "header", false),
    some (namedDie .member "target_filename", false), none,
    some (typeDie .typedef, false), some (typeDie .structureType, true),
    some (namedDie .member "tag", false), some (namedDie .member "filename", false),
    some (namedDie .member "line", false), none,
    some (typeDie .pointerType, false), some (namedDie .baseType "char", false),
    some (namedDie .baseType "unsigned int", false), none]

/-- The stream of the unit. -/
def fileUnitAt (pos : Nat) : Entry Die := entryOfSize 0 ((fileUnitDies[pos - 11]?).getD none)

/-- Its tree. -/
def fileUnitTree : EntryTree Die :=
  .branch (unitDie "a.c") 1 [.leaf (varDie "vzpatch_file_0" 0x4000) 1, .leaf (typeDie .constType) 1,
    .leaf (typeDie .typedef) 1,
    .branch (typeDie .structureType) 1 [.leaf (namedDie .member "header") 1,
      .leaf (namedDie .member "target_filename") 1] 1,
    .leaf (typeDie .typedef) 1,
    .branch (typeDie .structureType) 1 [.leaf (namedDie .member "tag") 1,
      .leaf (namedDie .member "filename") 1, .leaf (namedDie .member "line") 1] 1,
    .leaf (typeDie .pointerType) 1, .leaf (namedDie .baseType "char") 1,
    .leaf (namedDie .baseType "unsigned int") 1] 1

theorem fileUnitTree_laid : fileUnitTree.LaidOut fileUnitAt 11 := by
  simp [fileUnitTree, fileUnitAt, fileUnitDies, entryOfSize, EntryTree.LaidOut,
    EntryTree.LaidOuts, EntryTree.size, EntryTree.sizes]

theorem fileUnitTree_fits : 11 + fileUnitTree.size ≤ 0 + 25 + 4 := by
  simp [fileUnitTree, EntryTree.size, EntryTree.sizes]

/-- The unit. -/
def fileUnit : CU where
  cuOffset := 0
  unitLength := 25
  initialLengthFieldSize := 4
  cuDieOffset := 11
  dieAt := fileUnitAt
  tree := fileUnitTree
  laid := fileUnitTree_laid
  fits := fileUnitTree_fits

/-- The attributes of its types, by position. -/
def fileUnitAttrs (dio : Dio) : TypeAttrs :=
  match dio.diePos with
  | 12 => { typeRef := some (.ref 13) }
  | 13 => { typeRef := some (.ref 14) }
  | 14 => { typeRef := some (.ref 15) }
  | 15 => { byteSize := some 32 }
  | 16 => { dataMemberLocation := some 0, typeRef := some (.ref 19) }
  | 17 => { dataMemberLocation := some 24, typeRef := some (.ref 25) }
  | 19 => { typeRef := some (.ref 20) }
  | 20 => { byteSize := some 24 }
  | 21 => { dataMemberLocation := some 0, typeRef := some (.ref 26) }
  | 22 => { dataMemberLocation := some 8, typeRef := some (.ref 25) }
  | 23 => { dataMemberLocation := some 16, typeRef := some (.ref 27) }
  | 25 => { byteSize := some 8, typeRef := some (.ref 26) }
  | 26 => { byteSize := some 1, encoding := some 6 }
  | 27 => { byteSize := some 4, encoding := some 7 }
  | _ => {}

/-- The object and its texts in one section. -/
def fileImage : ElfImage where
  headers := [⟨0x4000, 40, 0, 2, .other 1⟩]
  file := [1, 0, 0, 0, 0, 0, 0, 0, 0x20, 0x40, 0, 0, 0, 0, 0, 0, 3, 0, 0, 0, 0, 0, 0, 0,
    0x24, 0x40, 0, 0, 0, 0, 0, 0, 0x61, 0x2e, 0x63, 0, 0x75, 0x2e, 0x63, 0]

/-- A patch whose `a.c` has `VZP_FILE("u.c")` in line 3. -/
def filePatch : TypedElf where
  di := ⟨[(0, some fileUnit), (1, none)], fun _ => none⟩
  image := fileImage
  rank := fun _ => 0
  typeAttrs := fileUnitAttrs

/-- The variable. -/
def fileDio : Dio := fileUnit.dio ⟨12, varDie "vzpatch_file_0" 0x4000, some 11⟩

/-- The object. -/
def fileMeta : VzpMeta := ⟨[0x61, 0x2e, 0x63], 3, .file (some [0x75, 0x2e, 0x63])⟩

theorem fileImage_loadable : fileImage.Loadable := by
  have hsections : allocSections fileImage.headers = [⟨⟨0x4000, 40, 0, 2, .other 1⟩, 0⟩] := rfl
  constructor <;> rw [hsections] <;> simp [fileImage]

theorem filePatch_type :
    filePatch.getType (filePatch.typeObject 8) fileDio = .ok (.named fileMeta.body.type) := rfl

theorem fileMeta_stored : fileMeta.Stored fileImage 0x4000 := by
  have hsec : (⟨⟨0x4000, 40, 0, 2, .other 1⟩, 0⟩ : ElfSection) ∈
      allocSections fileImage.headers := List.mem_cons_self
  have hint : ∀ {addr size : Nat} {signed : Bool} {i : Int}, 0 < size → 0 ≤ i →
      2 * i < 256 ^ size → (∀ j < size, fileImage.byteAt (addr + j) = (intBytes size i)[j]?) →
      0x4000 ≤ addr → addr + size ≤ 0x4000 + 40 → fileImage.IntAt addr size signed i :=
    fun hsize hnonneg hlt hbytes hlow hhigh =>
      ElfImage.intAt_of_bytes hsec hsize (fitsInt_of_lt hnonneg hlt) hbytes hlow hhigh
  have hstr : ∀ {ptr : Int} {bytes : List Byte}, ptr ≠ 0 → 0 ∉ bytes →
      (∀ j < (bytes ++ [0]).length, fileImage.byteAt (ptr.toNat + j) = (bytes ++ [0])[j]?) →
      fileImage.StrAt ptr (.str bytes) :=
    fun hne hnull hbytes => ⟨hne, hnull, ElfImage.holds_of_bytes hbytes⟩
  have hheader : VZP_X_HEADER_T.Laid fileImage (0x4000 + 0) (.struct [("tag", .int 1),
      ("filename", .str [0x61, 0x2e, 0x63]), ("line", .int 3)]) :=
    ⟨_, rfl, _, _, _, rfl, rfl, ⟨1, rfl, hint (by simp) (by simp) (by simp) (by decide) (by simp)
        (by simp)⟩,
      _, _, _, rfl, rfl, ⟨0x4020, hint (by simp) (by simp) (by simp) (by decide) (by simp)
        (by simp), hstr (by simp) (by simp) (by decide)⟩,
      _, _, _, rfl, rfl, ⟨3, rfl, hint (by simp) (by simp) (by simp) (by decide) (by simp)
        (by simp)⟩, rfl⟩
  exact ⟨_, rfl, _, _, _, rfl, rfl, hheader, _, _, _, rfl, rfl, ⟨0x4024, hint (by simp) (by simp)
    (by simp) (by decide) (by simp) (by simp), hstr (by simp) (by simp) (by decide)⟩, rfl⟩

theorem fileMeta_read :
    ∃ l, ∀ n, l ≤ n → ∃ v, filePatch.getValue n fileDio = .ok v ∧
      Metadata.ofValue v = some ⟨"a.c", 3, .tagFile (some "u.c")⟩ :=
  @vzpMeta_value filePatch fileImage_loadable fileDio 0x4000 8 fileMeta rfl rfl filePatch_type
    fileMeta_stored

end Nsb
