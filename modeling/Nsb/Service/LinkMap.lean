import Nsb.Lib.Bytes
import Nsb.Patcher.Types

/-!
# The link map in memory

The dynamic loader keeps a list of the loaded objects: `_r_debug.r_map` points to
the first `struct link_map`, and each one has the address of its object, the
address of its dynamic section and the address of the next one.  A dynamic
section is an array of tagged values that ends with the tag `DT_NULL`.

`LinkMapAt` says that a memory has a given list of objects at an address.  Both
the patcher and the service walk this list by its addresses; `neededList` is what
they look for in it.  A walk takes one step of its fuel for each element.
-/

namespace Nsb

/-- The eight bytes at an address, as an integer. -/
def wordAt (mem : Mem) (a : Addr) : BitVec 64 :=
  BitVec.ofNat 64 (Bytes.leNat (mem.read a 8).toList)

def DT_NULL : BitVec 64 := 0
def DT_SYMTAB : BitVec 64 := 6

/-- `offsetof(struct link_map, l_ld)`; `l_addr` is at zero. -/
def offLd : Addr := 16

/-- `offsetof(struct link_map, l_next)`. -/
def offNext : Addr := 24

/-! ## Objects -/

/-- `GElf_Dyn`. -/
structure Dyn where
  dTag : BitVec 64
  dVal : BitVec 64
deriving DecidableEq

/-- An object of the link map: where it is loaded, and the entries of its dynamic
section in front of `DT_NULL`. -/
structure LinkMap where
  lAddr : Addr
  dyn : List Dyn
deriving DecidableEq

/-- The dynamic section `l` is at `a`. -/
def DynAt (mem : Mem) : Addr → List Dyn → Prop
  | a, [] => wordAt mem a = DT_NULL
  | a, d :: l =>
      wordAt mem a = d.dTag ∧ d.dTag ≠ DT_NULL ∧ wordAt mem (a + 8) = d.dVal ∧ DynAt mem (a + 16) l

/-- The objects `l` are linked from `a` on. -/
def LinkMapAt (mem : Mem) : Addr → List LinkMap → Prop
  | a, [] => a = 0
  | a, lm :: l =>
      a ≠ 0 ∧ wordAt mem a = lm.lAddr ∧ DynAt mem (wordAt mem (a + offLd)) lm.dyn ∧
        LinkMapAt mem (wordAt mem (a + offNext)) l

instance decidableDynAt (mem : Mem) : (a : Addr) → (l : List Dyn) → Decidable (DynAt mem a l)
  | a, [] => inferInstanceAs (Decidable (wordAt mem a = DT_NULL))
  | a, d :: l =>
      have := decidableDynAt mem (a + 16) l
      inferInstanceAs (Decidable (wordAt mem a = d.dTag ∧ d.dTag ≠ DT_NULL ∧
        wordAt mem (a + 8) = d.dVal ∧ DynAt mem (a + 16) l))

instance decidableLinkMapAt (mem : Mem) : (a : Addr) → (l : List LinkMap) →
    Decidable (LinkMapAt mem a l)
  | a, [] => inferInstanceAs (Decidable (a = 0))
  | a, lm :: l =>
      have := decidableLinkMapAt mem (wordAt mem (a + offNext)) l
      inferInstanceAs (Decidable (a ≠ 0 ∧ wordAt mem a = lm.lAddr ∧
        DynAt mem (wordAt mem (a + offLd)) lm.dyn ∧ LinkMapAt mem (wordAt mem (a + offNext)) l))

/-- The walk over a dynamic section that is common to `rtld_dynamic_tag_val` and
`nsb_service_dynamic_tag_val`. -/
def dynVal (tag : BitVec 64) : List Dyn → BitVec 64
  | [] => BitVec.ofInt 64 (-ENOENT)
  | d :: l => if d.dTag = tag then d.dVal else dynVal tag l

/-! ## The list of symbol tables -/

/-- The symbol table of an object, unless it has none. -/
def LinkMap.symtab (lm : LinkMap) : Except Int (BitVec 64) :=
  if dynVal DT_SYMTAB lm.dyn = BitVec.ofInt 64 (-ENOENT) then .error (-ENOENT)
  else .ok (dynVal DT_SYMTAB lm.dyn)

/-- The symbol table is an address of the object, not an offset. -/
def LinkMap.above (lm : LinkMap) : Bool := lm.lAddr.toInt ≤ (dynVal DT_SYMTAB lm.dyn).toInt

/-- The addresses of the symbol tables of the objects, in order. -/
def neededList : List LinkMap → Except Int (List (BitVec 64))
  | [] => .ok []
  | lm :: l => do
      let a ← lm.symtab
      let addrs ← neededList l
      pure (if lm.above then a :: addrs else addrs)

/-- The list as the return value and the array of a function. -/
def neededResult : Except Int (List (BitVec 64)) → Int × Option (List (BitVec 64))
  | .error err => (err, none)
  | .ok addrs => (addrs.length, some addrs)

theorem neededList_cons_error {lm : LinkMap} {err : Int} (h : lm.symtab = .error err)
    (l : List LinkMap) : neededList (lm :: l) = .error err := by
  rw [neededList, h]
  rfl

theorem neededList_cons_ok {lm : LinkMap} {addr : BitVec 64} (h : lm.symtab = .ok addr)
    (l : List LinkMap) :
    neededList (lm :: l) = (neededList l).map ((if lm.above then [addr] else []) ++ ·) := by
  rw [neededList, h]
  cases neededList l with
  | error err => rfl
  | ok addrs =>
      show Except.ok _ = Except.ok _
      split <;> rfl

/-- The list fails only for an object without a symbol table. -/
theorem neededList_error {l : List LinkMap} {err : Int} (h : neededList l = .error err) :
    err = -ENOENT := by
  induction l with
  | nil => cases h
  | cons lm l induction =>
      rw [neededList, LinkMap.symtab] at h
      split at h
      · cases h
        rfl
      · cases hl : neededList l with
        | error e =>
            rw [hl] at h
            cases h
            exact induction hl
        | ok addrs =>
            rw [hl] at h
            cases h

/-- It fails exactly when there is one. -/
theorem neededList_error_iff {l : List LinkMap} :
    neededList l = .error (-ENOENT) ↔
      ∃ lm ∈ l, dynVal DT_SYMTAB lm.dyn = BitVec.ofInt 64 (-ENOENT) := by
  induction l with
  | nil => simp [neededList]
  | cons lm l induction =>
      rw [List.exists_mem_cons_iff, neededList, LinkMap.symtab]
      split
      next hlm => exact ⟨fun _ => .inl hlm, fun _ => rfl⟩
      next hlm =>
        rw [← induction]
        cases hl : neededList l with
        | error e => exact ⟨fun h => .inr h, fun h => h.resolve_left hlm⟩
        | ok addrs =>
            constructor
            · intro h
              cases h
            · rintro (h | ⟨⟨⟩⟩)
              exact absurd h hlm

end Nsb
