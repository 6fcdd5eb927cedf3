import Nsb.Generator.AddressSpace

/-!
# Strings of metadata

`MemoryStream` of `elffile.py` and `TypeObject._read_ptr_char` of
`debuginfo.py`.

A read of the stream stays within one section, so it may be short.  A string is
read in chunks of 1 KiB until one of them has a null byte.  The number of reads
is not known beforehand: the loop is given how many it may make, and it has no
result when they do not suffice.

`ElfImage.byteAt` is the memory that the sections stand for.
-/

namespace Nsb

/-! ## The stream -/

/-- What is read of an ELF file: the section headers and the file. -/
structure ElfImage where
  headers : List SectionHeader
  file : List Byte

/-- `MemoryStream`.  `addr` is the position. -/
structure MemoryStream where
  elf : ElfImage
  rank : ElfSection → Nat
  addr : Nat

/-- `seek`. -/
def MemoryStream.seek (s : MemoryStream) (addr : Nat) : MemoryStream := { s with addr := addr }

/-- The message of a read that got less than it should. -/
def shortRead (got expected : Nat) : Raised :=
  .exception ("Short read: got " ++ toString got ++ ", expected " ++ toString expected)

/-- The bytes of a section from an address on. -/
def MemoryStream.readSection (s : MemoryStream) (sec : ElfSection) (size : Nat) :
    Except Raised (List Byte) :=
  if sec.shType = .shtNobits then .ok (List.replicate size 0)
  else
    let offset := s.addr - sec.shAddr + sec.shOffset
    let data := (s.elf.file.drop offset).take size
    if data.length ≠ size then .error (shortRead data.length size) else .ok data

/-- `MemoryStream._read`. -/
def MemoryStream.readPart (s : MemoryStream) (size : Nat) :
    Except Raised (List Byte × MemoryStream) :=
  if size = 0 then .ok ([], s)
  else do
    let nextAddr := s.addr + size
    match ← getSection s.rank s.elf.headers s.addr with
    | none => throw (.exception
        ("No section for address " ++ String.ofList (Nat.toDigits 16 s.addr)))
    | some sec =>
        let nextSec ← getSection s.rank s.elf.headers (nextAddr - 1)
        -- one read has the bytes of one section
        let nextAddr := if nextSec ≠ some sec then sec.shAddr + sec.shSize else nextAddr
        let data ← s.readSection sec (nextAddr - s.addr)
        pure (data, s.seek nextAddr)

/-- `MemoryStream.read`. -/
def MemoryStream.read (s : MemoryStream) (size : Nat) (allowShort : Bool) :
    Except Raised (List Byte × MemoryStream) := do
  let (data, s') ← s.readPart size
  pyAssert (data.length ≤ size)
  if !allowShort ∧ data.length < size then throw (shortRead data.length size)
  else pure (data, s')

/-! ## Strings -/

/-- The loop of `_read_ptr_char`, with the chunks so far. -/
def MemoryStream.scan : Nat → MemoryStream → List Byte →
    Option (Except Raised (List Byte × MemoryStream))
  | 0, _, _ => none
  | n + 1, s, chunks =>
      match s.read (1 <<< 10) true with
      | .error e => some (.error e)
      | .ok (data, s') =>
          match data.idxOf? 0 with
          | some nullIdx => some (.ok (chunks ++ data.take nullIdx, s'))
          | none => MemoryStream.scan n s' (chunks ++ data)

/-- `_read_ptr_char`, with a number of reads.  The result has the stream after
the call. -/
def MemoryStream.readPtrChar (n ptr : Nat) (s : MemoryStream) :
    Option (Except Raised (Option (List Byte) × MemoryStream)) :=
  if ptr = 0 then some (.ok (none, s))
  else (MemoryStream.scan n (s.seek ptr) []).map fun r =>
    r.map fun (bytes, s') => (some bytes, s'.seek s.addr)

/-! ## The memory -/

/-- The byte at an address.  A section without bits has zeros. -/
def ElfImage.byteAt (elf : ElfImage) (addr : Nat) : Option Byte :=
  ((allocSections elf.headers).find? fun sec => sec.contains addr).bind fun sec =>
    if sec.shType = .shtNobits then some 0
    else elf.file[addr - sec.shAddr + sec.shOffset]?

/-- An ELF file whose allocated sections are not empty, do not overlap and have
their bytes in the file. -/
structure ElfImage.Loadable (elf : ElfImage) : Prop where
  nonempty : ∀ sec ∈ allocSections elf.headers, 0 < sec.shSize
  apart : ∀ sec ∈ allocSections elf.headers, ∀ other ∈ allocSections elf.headers, sec ≠ other →
    sec.shAddr + sec.shSize ≤ other.shAddr ∨ other.shAddr + other.shSize ≤ sec.shAddr
  inFile : ∀ sec ∈ allocSections elf.headers, sec.shType ≠ .shtNobits →
    sec.shOffset + sec.shSize ≤ elf.file.length

theorem mem_sectionsAt_of_find? {headers : List SectionHeader} {addr : Nat} {sec : ElfSection}
    (h : (allocSections headers).find? (fun sec => sec.contains addr) = some sec) :
    sec ∈ sectionsAt headers addr := by
  have hin := List.find?_some (p := fun sec : ElfSection => sec.contains addr) h
  exact List.mem_filter.mpr ⟨List.mem_of_find?_eq_some h, hin⟩

theorem ElfImage.exists_section {elf : ElfImage} {addr : Nat} {b : Byte}
    (hb : elf.byteAt addr = some b) : ∃ sec, sec ∈ sectionsAt elf.headers addr := by
  obtain ⟨sec, hfind, _⟩ := Option.bind_eq_some_iff.mp hb
  exact ⟨sec, mem_sectionsAt_of_find? hfind⟩

section Loadable

variable {elf : ElfImage} (h : elf.Loadable)
include h

/-- No two sections have an address in common. -/
theorem ElfImage.Loadable.eq_of_mem {addr : Nat} {sec other : ElfSection}
    (hsec : sec ∈ sectionsAt elf.headers addr) (hother : other ∈ sectionsAt elf.headers addr) :
    sec = other := by
  by_contra hne
  rw [mem_sectionsAt] at hsec hother
  have := h.apart sec hsec.1 other hother.1 hne
  omega

/-- `get_section` returns the section that has the address. -/
theorem ElfImage.Loadable.getSection_eq {rank : ElfSection → Nat} {addr : Nat} {sec : ElfSection}
    (hsec : sec ∈ sectionsAt elf.headers addr) :
    getSection rank elf.headers addr = .ok (some sec) := by
  refine getSection_of_first hsec fun other hother hne hbelow => ?_
  rw [mem_sectionsAt] at hsec
  have hapart := h.apart other hother sec hsec.1 hne
  have hpos := h.nonempty other hother
  omega

theorem ElfImage.Loadable.byteAt_eq {addr : Nat} {sec : ElfSection}
    (hsec : sec ∈ sectionsAt elf.headers addr) :
    elf.byteAt addr = if sec.shType = .shtNobits then some 0
      else elf.file[addr - sec.shAddr + sec.shOffset]? := by
  have hfind : ((allocSections elf.headers).find? fun s => s.contains addr) = some sec := by
    cases hfind : (allocSections elf.headers).find? fun s => s.contains addr with
    | none =>
        have hmem := List.mem_filter.mp hsec
        exact absurd hmem.2 (List.find?_eq_none.mp hfind sec hmem.1)
    | some other => rw [h.eq_of_mem (mem_sectionsAt_of_find? hfind) hsec]
  rw [ElfImage.byteAt, hfind]
  rfl

end Loadable

/-! ## Reads -/

/-- Bytes that stand in memory from an address on. -/
def ElfImage.Holds (elf : ElfImage) (addr : Nat) (data : List Byte) : Prop :=
  ∀ j b, data[j]? = some b → elf.byteAt (addr + j) = some b

/-- Of two lists that stand at one address, the shorter is a prefix of the
other. -/
theorem ElfImage.Holds.isPrefix {elf : ElfImage} {addr : Nat} {data data' : List Byte}
    (h : elf.Holds addr data) (h' : elf.Holds addr data') (hlen : data.length ≤ data'.length) :
    data <+: data' := by
  rw [List.prefix_iff_getElem?]
  intro j hj
  have hlt : j < data'.length := Nat.lt_of_lt_of_le hj hlen
  have heq := (h j _ (List.getElem?_eq_getElem hj)).symm.trans
    (h' j _ (List.getElem?_eq_getElem hlt))
  rw [List.getElem?_eq_getElem hlt, ← heq]

theorem ElfImage.Holds.of_append {elf : ElfImage} {addr : Nat} {front back : List Byte}
    (h : elf.Holds addr (front ++ back)) : elf.Holds (addr + front.length) back := by
  intro j b hj
  rw [Nat.add_assoc]
  exact h _ b (by rw [List.getElem?_append_right (Nat.le_add_right _ _), Nat.add_sub_cancel_left,
    hj])

/-- Reading from one section gives the bytes of memory. -/
theorem MemoryStream.readSection_eq {s : MemoryStream} (h : s.elf.Loadable) {sec : ElfSection}
    (hsec : sec ∈ allocSections s.elf.headers) (hbelow : sec.shAddr ≤ s.addr) (size : Nat)
    (hsize : s.addr + size ≤ sec.shAddr + sec.shSize) :
    ∃ data, s.readSection sec size = .ok data ∧ data.length = size ∧ s.elf.Holds s.addr data := by
  have hat : ∀ j, j < size → sec ∈ sectionsAt s.elf.headers (s.addr + j) := by
    intro j hj
    exact mem_sectionsAt.mpr ⟨hsec, by omega, by omega⟩
  rw [MemoryStream.readSection]
  by_cases hbits : sec.shType = .shtNobits
  · rw [if_pos hbits]
    refine ⟨_, rfl, List.length_replicate, fun j b hj => ?_⟩
    have hlt : j < size := by simpa using (List.getElem?_eq_some_iff.mp hj).1
    rw [h.byteAt_eq (hat j hlt), if_pos hbits, List.eq_of_mem_replicate (List.mem_of_getElem? hj)]
  · rw [if_neg hbits]
    have hfile := h.inFile sec hsec hbits
    have hlen : ((s.elf.file.drop (s.addr - sec.shAddr + sec.shOffset)).take size).length =
        size := by
      rw [List.length_take, List.length_drop]
      omega
    dsimp only
    rw [if_neg (not_not_intro hlen)]
    refine ⟨_, rfl, hlen, fun j b hj => ?_⟩
    have hlt : j < size := hlen ▸ (List.getElem?_eq_some_iff.mp hj).1
    rw [h.byteAt_eq (hat j hlt), if_neg hbits]
    rw [List.getElem?_take_of_lt hlt, List.getElem?_drop] at hj
    rw [← hj]
    congr 1
    omega

/-- The section of the last address of a read is that of the first exactly when
the read ends in it. -/
theorem MemoryStream.getSection_last {s : MemoryStream} (h : s.elf.Loadable) {sec : ElfSection}
    (hsec : sec ∈ sectionsAt s.elf.headers s.addr) {size : Nat} (hsize : 0 < size) :
    ∃ nextSec, getSection s.rank s.elf.headers (s.addr + size - 1) = .ok nextSec ∧
      (nextSec = some sec ↔ s.addr + size ≤ sec.shAddr + sec.shSize) := by
  obtain ⟨halloc, hbelow, _⟩ := mem_sectionsAt.mp hsec
  by_cases hend : s.addr + size ≤ sec.shAddr + sec.shSize
  · have hlast : sec ∈ sectionsAt s.elf.headers (s.addr + size - 1) :=
      mem_sectionsAt.mpr ⟨halloc, by omega, by omega⟩
    exact ⟨some sec, h.getSection_eq hlast, by simp [hend]⟩
  · rcases getSection_cases s.rank s.elf.headers (s.addr + size - 1) with
      ⟨other, _, hget⟩ | ⟨_, hget⟩
    · refine ⟨_, hget, fun heq => ?_, fun hle => absurd hle hend⟩
      rw [heq] at hget
      have hlast := mem_sectionsAt.mp (mem_sectionsAt_of_getSection hget).1
      omega
    · exact ⟨none, hget, by simp [hend]⟩

/-- A read at an address of a section that may be short gives at least one byte
of memory and stops behind it. -/
theorem MemoryStream.read_eq {s : MemoryStream} (h : s.elf.Loadable) {sec : ElfSection}
    (hsec : sec ∈ sectionsAt s.elf.headers s.addr) (size : Nat) (hsize : 0 < size) :
    ∃ data, s.read size true = .ok (data, s.seek (s.addr + data.length)) ∧ data ≠ [] ∧
      s.elf.Holds s.addr data := by
  obtain ⟨halloc, hbelow, habove⟩ := mem_sectionsAt.mp hsec
  obtain ⟨nextSec, hnext, hlast⟩ := MemoryStream.getSection_last h hsec hsize
  -- where the read stops
  obtain ⟨stop, hstop, hlt, hle, hend⟩ : ∃ stop,
      (if nextSec ≠ some sec then sec.shAddr + sec.shSize else s.addr + size) = stop ∧
      s.addr < stop ∧ stop ≤ s.addr + size ∧ stop ≤ sec.shAddr + sec.shSize := by
    refine ⟨_, rfl, ?_⟩
    split
    · next hne =>
        have hover : ¬ s.addr + size ≤ sec.shAddr + sec.shSize := fun hin => hne (hlast.mpr hin)
        omega
    · next heq =>
        have hin := hlast.mp (not_not.mp heq)
        omega
  obtain ⟨data, hdata, hlen, hholds⟩ :=
    MemoryStream.readSection_eq h halloc hbelow (stop - s.addr) (by omega)
  have hpart : s.readPart size = .ok (data, s.seek stop) := by
    rw [MemoryStream.readPart, if_neg (Nat.pos_iff_ne_zero.mp hsize), h.getSection_eq hsec]
    simp only [bind, Except.bind, hnext, hstop, hdata]
    rfl
  refine ⟨data, ?_, ?_, hholds⟩
  · have hshort : decide (data.length ≤ size) = true := decide_eq_true (by omega)
    rw [MemoryStream.read, hpart, show s.addr + data.length = stop by omega]
    simp only [bind, Except.bind, hshort]
    rfl
  · rintro rfl
    rw [List.length_nil] at hlen
    omega

/-- The scan reads the bytes up to the null byte, when it may make one read for
each of them. -/
theorem MemoryStream.scan_eq {s : MemoryStream} (h : s.elf.Loadable) {bytes : List Byte}
    (hnull : 0 ∉ bytes) (hbytes : s.elf.Holds s.addr (bytes ++ [0])) (chunks : List Byte) {n : Nat}
    (hn : bytes.length < n) :
    ∃ addr, MemoryStream.scan n s chunks = some (.ok (chunks ++ bytes, s.seek addr)) := by
  induction n generalizing s bytes chunks with
  | zero => omega
  | succ n induction =>
      have hfirst : ∃ b, (bytes ++ [0])[0]? = some b := by
        cases bytes with
        | nil => exact ⟨0, rfl⟩
        | cons b bytes => exact ⟨b, rfl⟩
      obtain ⟨b, hb⟩ := hfirst
      obtain ⟨sec, hsec⟩ := ElfImage.exists_section (hbytes 0 b hb)
      obtain ⟨data, hread, hne, hdata⟩ := MemoryStream.read_eq h hsec (1 <<< 10) (by decide)
      rw [MemoryStream.scan, hread]
      dsimp only
      rcases Nat.lt_or_ge bytes.length data.length with hlong | hshort
      · -- the null byte is in the chunk
        obtain ⟨rest, rfl⟩ := hbytes.isPrefix hdata (by simp; omega)
        rw [List.append_assoc, List.singleton_append, idxOf?_append_cons hnull]
        dsimp only
        rw [List.take_left]
        exact ⟨_, rfl⟩
      · -- the chunk is a part of the string
        have hprefix := hdata.isPrefix hbytes (by simp; omega)
        obtain ⟨rest, rfl⟩ :=
          List.prefix_of_prefix_length_le hprefix (List.prefix_append _ _) hshort
        rw [List.mem_append, not_or] at hnull
        rw [List.append_assoc] at hbytes
        rw [List.idxOf?_eq_none_iff.mpr hnull.1]
        have hpos := List.length_pos_iff.mpr hne
        rw [List.length_append] at hn
        obtain ⟨addr, hscan⟩ := @induction (s.seek (s.addr + data.length)) h rest hnull.2
          hbytes.of_append (chunks ++ data) (by omega)
        refine ⟨addr, ?_⟩
        rw [← List.append_assoc]
        exact hscan

/-- A string is read whole: from a pointer that is not null, `_read_ptr_char`
returns the bytes in front of the first null byte and leaves the stream where it
was, once it may make one read for each of them and one more. -/
theorem MemoryStream.readPtrChar_whole {s : MemoryStream} (h : s.elf.Loadable) {ptr : Nat}
    (hptr : ptr ≠ 0) {bytes : List Byte} (hnull : 0 ∉ bytes)
    (hbytes : s.elf.Holds ptr (bytes ++ [0])) :
    ∀ n, bytes.length < n → MemoryStream.readPtrChar n ptr s = some (.ok (some bytes, s)) := by
  intro n hn
  obtain ⟨addr, hscan⟩ := @MemoryStream.scan_eq (s.seek ptr) h bytes hnull hbytes [] n hn
  rw [MemoryStream.readPtrChar, if_neg hptr, hscan]
  rfl

/-- A string that begins in `.data` and ends in the `.bss` after it. -/
def twoSections : ElfImage where
  headers := [⟨0x4000, 2, 0, 3, .other 1⟩, ⟨0x4002, 8, 2, 3, .shtNobits⟩]
  file := [0x68, 0x69]

theorem twoSections_loadable : twoSections.Loadable := by
  have hsections : allocSections twoSections.headers =
      [⟨⟨0x4000, 2, 0, 3, .other 1⟩, 0⟩, ⟨⟨0x4002, 8, 2, 3, .shtNobits⟩, 1⟩] := rfl
  constructor <;> rw [hsections] <;> simp [twoSections]

theorem twoSections_string :
    MemoryStream.readPtrChar 3 0x4000 ⟨twoSections, fun _ => 0, 0x10⟩ =
      some (.ok (some [0x68, 0x69], ⟨twoSections, fun _ => 0, 0x10⟩)) := by
  refine MemoryStream.readPtrChar_whole twoSections_loadable (by simp) (by simp) ?_ 3 (by simp)
  intro j b hj
  have hlt := (List.getElem?_eq_some_iff.mp hj).1
  match j, hlt with
  | 0, _ => exact hj
  | 1, _ => exact hj
  | 2, _ => exact hj

end Nsb
