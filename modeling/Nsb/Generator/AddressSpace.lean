import Nsb.Generator.DieLookup

/-!
# The memory of an ELF file

`AddressSpace` and `MemoryStream` of `elffile.py`, and the strings of metadata,
which `TypeObject._read_ptr_char` reads through them.

The table of the sections is sorted by negated addresses.  Sections at one
address are in the order that Python has for objects; it is given by `rank`.
The lookup looks at one section only, the first that does not start above the
address.
-/

namespace Nsb

/-! ## Sections -/

/-- `sh_type`, as far as it is read. -/
inductive ShType where
  | shtNobits
  | other (code : Nat)
deriving DecidableEq, Repr

/-- The fields of a section header that are read. -/
structure SectionHeader where
  shAddr : Nat
  shSize : Nat
  shOffset : Nat
  shFlags : Nat
  shType : ShType
deriving DecidableEq, Repr

/-- A section with its index in the table. -/
structure ElfSection extends SectionHeader where
  idx : Nat
deriving DecidableEq, Repr

/-- `SHF_ALLOC`. -/
def SHF_ALLOC : Nat := 2

/-- `elf.iter_sections`. -/
def iterSections (headers : List SectionHeader) : List ElfSection :=
  headers.zipIdx.map fun e => ⟨e.1, e.2⟩

/-- The allocated sections. -/
def allocSections (headers : List SectionHeader) : List ElfSection :=
  (iterSections headers).filter fun sec => sec.shFlags &&& SHF_ALLOC ≠ 0

/-- The address is one of the section. -/
def ElfSection.contains (sec : ElfSection) (addr : Nat) : Bool :=
  sec.shAddr ≤ addr && addr < sec.shAddr + sec.shSize

/-! ## The table -/

/-- A section comes in front of another one at the same address. -/
def ElfSection.SortsBefore (rank : ElfSection → Nat) (sec other : ElfSection) : Prop :=
  rank sec < rank other ∨ rank sec = rank other ∧ sec.idx < other.idx

/-- The order of the pairs in the table. -/
def secInfoLe (rank : ElfSection → Nat) (a b : Int × Option ElfSection) : Prop :=
  a.1 < b.1 ∨ a.1 = b.1 ∧
    (a.2.elim 0 rank < b.2.elim 0 rank ∨ a.2.elim 0 rank = b.2.elim 0 rank ∧
      a.2.elim 0 ElfSection.idx ≤ b.2.elim 0 ElfSection.idx)

instance (rank : ElfSection → Nat) : DecidableRel (secInfoLe rank) :=
  fun _ _ => inferInstanceAs (Decidable (_ ∨ _))

instance (rank : ElfSection → Nat) : Std.Total (secInfoLe rank) where
  total a b := by
    rw [secInfoLe, secInfoLe]
    omega

instance (rank : ElfSection → Nat) : IsTrans (Int × Option ElfSection) (secInfoLe rank) where
  trans a b c hab hbc := by
    rw [secInfoLe] at hab hbc ⊢
    omega

/-- The pair of a section. -/
def ElfSection.info (sec : ElfSection) : Int × Option ElfSection := (-(sec.shAddr : Int), some sec)

/-- `AddressSpace.__init__`. -/
def secInfo (rank : ElfSection → Nat) (headers : List SectionHeader) :
    List (Int × Option ElfSection) :=
  ((allocSections headers).map ElfSection.info ++ [(1, none)]).insertionSort (secInfoLe rank)

/-- `AddressSpace.get_section`. -/
def getSection (rank : ElfSection → Nat) (headers : List SectionHeader) (addr : Nat) :
    Except Raised (Option ElfSection) :=
  let info := secInfo rank headers
  match info[bisect (fun e => -(addr : Int) ≤ e.1) info]? with
  | none => .error .indexError
  | some (_, none) => .ok none
  | some (_, some sec) =>
      if (addr : Int) - sec.shAddr ≥ sec.shSize then .ok none else .ok (some sec)

theorem mem_secInfo {rank : ElfSection → Nat} {headers : List SectionHeader}
    {e : Int × Option ElfSection} :
    e ∈ secInfo rank headers ↔
      (∃ sec ∈ allocSections headers, e = sec.info) ∨ e = (1, none) := by
  rw [secInfo, (List.perm_insertionSort _ _).mem_iff, List.mem_append, List.mem_map,
    List.mem_singleton]
  simp only [eq_comm]

/-- In a sorted list, the first element that passes a test is at or in front of
every other one that does. -/
theorem rel_of_find?_eq_some {α : Type} {r : α → α → Prop} (hrefl : ∀ a, r a a) {p : α → Bool}
    {l : List α} {e x : α} (hsorted : l.Pairwise r) (hx : x ∈ l) (hp : p x = true)
    (h : l.find? p = some e) : r e x := by
  obtain ⟨_, front, back, rfl, hfront⟩ := List.find?_eq_some_iff_append.mp h
  rw [List.mem_append, List.mem_cons] at hx
  rcases hx with hx | rfl | hx
  · have hnot := hfront x hx
    rw [hp] at hnot
    cases hnot
  · exact hrefl x
  · exact (List.pairwise_cons.mp (List.pairwise_append.mp hsorted).2.1).1 x hx

/-- The section that `get_section` looks at. -/
structure LooksAt (rank : ElfSection → Nat) (headers : List SectionHeader) (addr : Nat)
    (sec : ElfSection) : Prop where
  alloc : sec ∈ allocSections headers
  below : sec.shAddr ≤ addr
  first : ∀ other ∈ allocSections headers, other.shAddr ≤ addr →
    secInfoLe rank sec.info other.info

/-- The test of `get_section` on a section that does not start behind the
address. -/
theorem ElfSection.contains_iff_of_le (sec : ElfSection) {addr : Nat} (h : sec.shAddr ≤ addr) :
    sec.contains addr = true ↔ ¬ (addr : Int) - sec.shAddr ≥ sec.shSize := by
  rw [ElfSection.contains, Bool.and_eq_true, decide_eq_true_eq, decide_eq_true_eq]
  omega

/-- `get_section` looks at the first section that does not start above the
address, if there is one. -/
theorem getSection_cases (rank : ElfSection → Nat) (headers : List SectionHeader) (addr : Nat) :
    (∃ sec, LooksAt rank headers addr sec ∧
      getSection rank headers addr = .ok (if sec.contains addr then some sec else none)) ∨
    ((∀ sec ∈ allocSections headers, addr < sec.shAddr) ∧
      getSection rank headers addr = .ok none) := by
  have hsorted : (secInfo rank headers).Pairwise (secInfoLe rank) :=
    List.pairwise_insertionSort _ _
  have hrefl : ∀ a, secInfoLe rank a a := fun a => .inr ⟨rfl, .inr ⟨rfl, Nat.le_refl _⟩⟩
  rw [getSection, getElem?_bisect]
  cases hfind : (secInfo rank headers).find? fun e => -(addr : Int) ≤ e.1 with
  | none =>
      have hnot := List.find?_eq_none.mp hfind (1, none) (mem_secInfo.mpr (.inr rfl))
      rw [decide_eq_true_eq] at hnot
      dsimp only at hnot
      omega
  | some e =>
      have hpass := List.find?_some hfind
      rw [decide_eq_true_eq] at hpass
      have hleast : ∀ other ∈ allocSections headers, other.shAddr ≤ addr →
          secInfoLe rank e other.info := by
        intro other hother hle
        refine rel_of_find?_eq_some hrefl hsorted (mem_secInfo.mpr (.inl ⟨other, hother, rfl⟩)) ?_
          hfind
        rw [decide_eq_true_eq, ElfSection.info]
        omega
      rcases mem_secInfo.mp (List.mem_of_find?_eq_some hfind) with ⟨sec, hsec, rfl⟩ | rfl
      · have hbelow : sec.shAddr ≤ addr := by
          rw [ElfSection.info] at hpass
          omega
        refine .inl ⟨sec, ⟨hsec, hbelow, hleast⟩, ?_⟩
        rw [ElfSection.info]
        dsimp only
        split
        · next hsize => rw [if_neg fun hin => (sec.contains_iff_of_le hbelow).mp hin hsize]
        · next hsize => rw [if_pos ((sec.contains_iff_of_le hbelow).mpr hsize)]
      · refine .inr ⟨fun sec hsec => ?_, rfl⟩
        by_contra hle
        have := hleast sec hsec (by omega)
        rw [secInfoLe, ElfSection.info] at this
        dsimp only at this
        omega

/-! ## Which lookups are exact -/

theorem header_of_mem_allocSections {headers : List SectionHeader} {sec : ElfSection}
    (h : sec ∈ allocSections headers) : headers[sec.idx]? = some sec.toSectionHeader := by
  obtain ⟨e, he, rfl⟩ := List.mem_map.mp (List.mem_filter.mp h).1
  exact List.mem_zipIdx_iff_getElem?.mp he

/-- Two sections of a table are told apart by their index. -/
theorem eq_of_idx_eq {headers : List SectionHeader} {sec other : ElfSection}
    (hsec : sec ∈ allocSections headers) (hother : other ∈ allocSections headers)
    (h : sec.idx = other.idx) : sec = other := by
  have hheader := header_of_mem_allocSections hsec
  rw [h, header_of_mem_allocSections hother] at hheader
  cases sec
  cases other
  simp_all

/-- A section that comes first among all that do not start above the address is
the one that is looked at. -/
theorem LooksAt.eq_of_first {rank : ElfSection → Nat} {headers : List SectionHeader} {addr : Nat}
    {sec sec' : ElfSection} (h : LooksAt rank headers addr sec)
    (hsec : sec' ∈ allocSections headers) (hbelow : sec'.shAddr ≤ addr)
    (hfirst : ∀ other ∈ allocSections headers, other ≠ sec' → other.shAddr ≤ addr →
      other.shAddr < sec'.shAddr ∨ other.shAddr = sec'.shAddr ∧ sec'.SortsBefore rank other) :
    sec = sec' := by
  by_contra hne
  have hle := h.first sec' hsec hbelow
  have hge := hfirst sec h.alloc hne h.below
  rw [secInfoLe, ElfSection.info, ElfSection.info] at hle
  rw [ElfSection.SortsBefore] at hge
  simp only [Option.elim_some] at hle
  omega

/-- A section that is looked at comes first among the others. -/
theorem LooksAt.sortsBefore {rank : ElfSection → Nat} {headers : List SectionHeader} {addr : Nat}
    {sec other : ElfSection} (h : LooksAt rank headers addr sec)
    (hother : other ∈ allocSections headers) (hne : other ≠ sec) (hbelow : other.shAddr ≤ addr) :
    other.shAddr < sec.shAddr ∨ other.shAddr = sec.shAddr ∧ sec.SortsBefore rank other := by
  have hle := h.first other hother hbelow
  have hidx : sec.idx ≠ other.idx := fun heq => hne (eq_of_idx_eq h.alloc hother heq).symm
  rw [secInfoLe, ElfSection.info, ElfSection.info] at hle
  rw [ElfSection.SortsBefore]
  simp only [Option.elim_some] at hle
  omega

/-- The sections that have an address. -/
def sectionsAt (headers : List SectionHeader) (addr : Nat) : List ElfSection :=
  (allocSections headers).filter fun sec => sec.contains addr

/-- `get_section` of an address is exact: it returns the only section that has
the address, and nothing if no section has it. -/
def GetSectionExact (rank : ElfSection → Nat) (headers : List SectionHeader) (addr : Nat) : Prop :=
  (∀ sec, sectionsAt headers addr = [sec] → getSection rank headers addr = .ok (some sec)) ∧
    (sectionsAt headers addr = [] → getSection rank headers addr = .ok none)

theorem mem_sectionsAt {headers : List SectionHeader} {addr : Nat} {sec : ElfSection} :
    sec ∈ sectionsAt headers addr ↔ sec ∈ allocSections headers ∧ sec.shAddr ≤ addr ∧
      addr < sec.shAddr + sec.shSize := by
  simp [sectionsAt, ElfSection.contains]

/-- What is returned has the address. -/
theorem mem_sectionsAt_of_getSection {rank : ElfSection → Nat} {headers : List SectionHeader}
    {addr : Nat} {sec : ElfSection} (h : getSection rank headers addr = .ok (some sec)) :
    sec ∈ sectionsAt headers addr ∧ LooksAt rank headers addr sec := by
  rcases getSection_cases rank headers addr with ⟨sec', hlooks, hget⟩ | ⟨_, hget⟩
  · rw [hget] at h
    split at h
    · next hin =>
        cases h
        exact ⟨List.mem_filter.mpr ⟨hlooks.alloc, hin⟩, hlooks⟩
    · cases h
  · rw [hget] at h
    cases h

theorem getSection_of_first {rank : ElfSection → Nat} {headers : List SectionHeader} {addr : Nat}
    {sec : ElfSection} (hsec : sec ∈ sectionsAt headers addr)
    (hfirst : ∀ other ∈ allocSections headers, other ≠ sec → other.shAddr ≤ addr →
      other.shAddr < sec.shAddr ∨ other.shAddr = sec.shAddr ∧ sec.SortsBefore rank other) :
    getSection rank headers addr = .ok (some sec) := by
  obtain ⟨halloc, hbelow, _⟩ := mem_sectionsAt.mp hsec
  rcases getSection_cases rank headers addr with ⟨sec', hlooks, hget⟩ | ⟨habove, _⟩
  · rw [hlooks.eq_of_first halloc hbelow hfirst] at hget
    rw [hget, if_pos (List.mem_filter.mp hsec).2]
  · exact absurd (habove sec halloc) (Nat.not_lt.mpr hbelow)

/-- The lookup is exact unless the only section that has the address is hidden:
another one starts behind its start and not above the address, or at its start
and comes first. -/
theorem getSection_exact_iff (rank : ElfSection → Nat) (headers : List SectionHeader)
    (addr : Nat) :
    GetSectionExact rank headers addr ↔
      ∀ sec, sectionsAt headers addr = [sec] → ∀ other ∈ allocSections headers, other ≠ sec →
        other.shAddr ≤ addr →
        other.shAddr < sec.shAddr ∨ other.shAddr = sec.shAddr ∧ sec.SortsBefore rank other := by
  constructor
  · intro hexact sec hsec other hother hne hbelow
    have hlooks := (mem_sectionsAt_of_getSection (hexact.1 sec hsec)).2
    exact hlooks.sortsBefore hother hne hbelow
  · intro hfirst
    constructor
    · intro sec hsec
      exact getSection_of_first (by rw [hsec]; exact List.mem_singleton_self sec) (hfirst sec hsec)
    · intro hnone
      rcases getSection_cases rank headers addr with ⟨sec, hlooks, hget⟩ | ⟨_, hget⟩
      · rw [hget, if_neg]
        intro hin
        have hmem : sec ∈ sectionsAt headers addr := List.mem_filter.mpr ⟨hlooks.alloc, hin⟩
        rw [hnone] at hmem
        cases hmem
      · exact hget

/-- An empty `.data` and a `.bss` at one address. -/
def emptyDataHeaders : List SectionHeader :=
  [⟨0x4000, 0, 0x3000, 3, .other 1⟩, ⟨0x4000, 8, 0x3000, 3, .shtNobits⟩]

/-- The first address of `.bss` is in no section when `.data` comes first. -/
theorem emptyDataHeaders_not_exact :
    sectionsAt emptyDataHeaders 0x4000 = [⟨⟨0x4000, 8, 0x3000, 3, .shtNobits⟩, 1⟩] ∧
      getSection (fun _ => 0) emptyDataHeaders 0x4000 = .ok none ∧
      ¬ GetSectionExact (fun _ => 0) emptyDataHeaders 0x4000 := by
  have hat : sectionsAt emptyDataHeaders 0x4000 = [⟨⟨0x4000, 8, 0x3000, 3, .shtNobits⟩, 1⟩] := rfl
  have hget : getSection (fun _ => 0) emptyDataHeaders 0x4000 = .ok none := rfl
  refine ⟨hat, hget, fun hexact => ?_⟩
  have hfound := hexact.1 _ hat
  rw [hget] at hfound
  cases hfound

end Nsb
