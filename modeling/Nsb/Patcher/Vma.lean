import Nsb.Patcher.Types

/-!
# Lists of mappings

The sorted list of `patcher/vma.c` and the search for a hole of
`patcher/process.c`.

`add_vma_sorted` and `add_dl_vma_sorted` insert by the same rule: a mapping that
starts behind the last one goes to the end, any other one in front of the first
that does not start below it.

`next_vma` of the last mapping is the list head read as a mapping.  Its start is
whatever stands there, and the model takes it as a parameter `sentinel`.
-/

namespace Nsb

/-! ## Sorted insertion -/

/-- `iterate_vmas` with `add_vma`: `none` when no call returned one. -/
def addVma (new : Vma) : List Vma → Option (List Vma)
  | [] => none
  | vma :: l =>
      if vmaStart vma < vmaStart new then (addVma new l).map (vma :: ·)
      else some (new :: vma :: l)

/-- `add_vma_sorted`. -/
def addVmaSorted (head : List Vma) (vma : Vma) : Except Int (List Vma) :=
  match head.getLast? with
  | none => .ok (head ++ [vma])
  | some lvma =>
      if vmaStart lvma < vmaStart vma then .ok (head ++ [vma])
      else
        match addVma vma head with
        | some l => .ok l
        | none => .error (-EFAULT)

/-- `splice_vma_lists_sorted`: what it leaves in the two lists, and the return code.
A mapping is taken out of `from` before it is added to `to`. -/
def spliceVmaLists : List Vma → List Vma → List Vma × List Vma × Int
  | [], to_ => ([], to_, 0)
  | vma :: from_, to_ =>
      match addVmaSorted to_ vma with
      | .ok to_ => spliceVmaLists from_ to_
      | .error err => (from_, to_, err)

/-- The list `to` behind a call of `splice_vma_lists_sorted` that returns zero. -/
def spliceVmaListsSorted (from_ to_ : List Vma) : Except Int (List Vma) :=
  let (_, to_, err) := spliceVmaLists from_ to_
  if err = 0 then .ok to_ else .error err

theorem addVmaSorted_error {l : List Vma} {vma : Vma} {err : Int}
    (h : addVmaSorted l vma = .error err) : err ≠ 0 := by
  rw [addVmaSorted] at h
  split at h
  · cases h
  · split at h
    · cases h
    · split at h
      · cases h
      · cases h
        decide

theorem spliceVmaListsSorted_cons (vma : Vma) (from_ to_ : List Vma) :
    spliceVmaListsSorted (vma :: from_) to_ =
      (addVmaSorted to_ vma).bind (spliceVmaListsSorted from_) := by
  rw [spliceVmaListsSorted, spliceVmaLists]
  cases hadd : addVmaSorted to_ vma with
  | ok l => rfl
  | error err => exact if_neg (addVmaSorted_error hadd)

/-- Sorted by start address. -/
def VmaSorted (l : List Vma) : Prop := l.Pairwise fun u v => u.addr ≤ v.addr

theorem VmaSorted.head_le {u : Vma} {l : List Vma} (h : VmaSorted (u :: l)) :
    ∀ v ∈ u :: l, u.addr ≤ v.addr := by
  intro v hv
  cases List.mem_cons.mp hv with
  | inl he => rw [he]; exact BitVec.le_refl _
  | inr hl => exact List.rel_of_pairwise_cons h hl

/-- Insertion in front of the first mapping that does not start below. -/
theorem addVma_sorted {new : Vma} :
    ∀ {l : List Vma}, VmaSorted l → (∃ v ∈ l, ¬ v.addr < new.addr) →
      ∃ l', addVma new l = some l' ∧ l'.Perm (new :: l) ∧ VmaSorted l'
  | [], _, ⟨_, hv, _⟩ => by cases hv
  | vma :: l, h, hex => by
      rw [addVma]
      by_cases hlt : vmaStart vma < vmaStart new
      · have hex' : ∃ v ∈ l, ¬ v.addr < new.addr := by
          obtain ⟨v, hv, hge⟩ := hex
          cases List.mem_cons.mp hv with
          | inl he => exact absurd (he ▸ hlt) hge
          | inr hl => exact ⟨v, hl, hge⟩
        obtain ⟨l', hl', hperm, hs⟩ := addVma_sorted (List.Pairwise.of_cons h) hex'
        rw [if_pos hlt, hl']
        refine ⟨vma :: l', rfl, (hperm.cons vma).trans (.swap new vma l),
          List.pairwise_cons.mpr ⟨?_, hs⟩⟩
        intro v hv
        cases List.mem_cons.mp (hperm.mem_iff.mp hv) with
        | inl he => rw [he]; exact BitVec.le_of_lt hlt
        | inr hl => exact h.head_le v (List.mem_cons_of_mem _ hl)
      · rw [if_neg hlt]
        refine ⟨_, rfl, .refl _, List.pairwise_cons.mpr ⟨?_, h⟩⟩
        intro v hv
        exact BitVec.le_trans (BitVec.not_lt.mp hlt) (h.head_le v hv)

/-- `add_vma_sorted` into a sorted list succeeds and keeps it sorted. -/
theorem addVmaSorted_sorted {l : List Vma} (h : VmaSorted l) (vma : Vma) :
    ∃ l', addVmaSorted l vma = .ok l' ∧ l'.Perm (vma :: l) ∧ VmaSorted l' := by
  rw [addVmaSorted]
  cases hlast : l.getLast? with
  | none =>
      rw [List.getLast?_eq_none_iff.mp hlast]
      exact ⟨[vma], rfl, .refl _, List.pairwise_singleton ..⟩
  | some lvma =>
      dsimp only
      by_cases hlt : vmaStart lvma < vmaStart vma
      · rw [if_pos hlt]
        refine ⟨_, rfl, List.perm_append_singleton vma l, ?_⟩
        obtain ⟨ys, rfl⟩ := List.getLast?_eq_some_iff.mp hlast
        refine List.pairwise_append.mpr ⟨h, List.pairwise_singleton .., ?_⟩
        intro u hu v hv
        rw [List.mem_singleton.mp hv]
        cases List.mem_append.mp hu with
        | inl hu' =>
            have hle := (List.pairwise_append.mp h).2.2 u hu' lvma (List.mem_singleton_self _)
            exact BitVec.le_trans hle (BitVec.le_of_lt hlt)
        | inr hu' => rw [List.mem_singleton.mp hu']; exact BitVec.le_of_lt hlt
      · rw [if_neg hlt]
        obtain ⟨l', hl', hperm, hs⟩ := addVma_sorted h ⟨lvma, List.mem_of_getLast? hlast, hlt⟩
        rw [hl']
        exact ⟨l', rfl, hperm, hs⟩

/-- `splice_vma_lists_sorted` into a sorted list moves every mapping. -/
theorem spliceVmaLists_sorted (from_ : List Vma) {to_ : List Vma} (h : VmaSorted to_) :
    ∃ l', spliceVmaLists from_ to_ = ([], l', 0) ∧ l'.Perm (from_ ++ to_) ∧ VmaSorted l' := by
  induction from_ generalizing to_ with
  | nil => exact ⟨to_, rfl, .refl _, h⟩
  | cons vma from_ induction =>
      obtain ⟨l, hadd, hperm, hs⟩ := addVmaSorted_sorted h vma
      obtain ⟨l', hsplice, hperm', hs'⟩ := induction hs
      refine ⟨l', ?_, ?_, hs'⟩
      · rw [spliceVmaLists, hadd]
        exact hsplice
      · exact hperm'.trans ((hperm.append_left from_).trans List.perm_middle)

/-- A mapping behind all others goes to the end. -/
theorem addVmaSorted_append {l : List Vma} {vma : Vma} (h : ∀ u ∈ l, u.addr < vma.addr) :
    addVmaSorted l vma = .ok (l ++ [vma]) := by
  rw [addVmaSorted]
  cases hlast : l.getLast? with
  | none => rfl
  | some lvma => exact if_pos (h lvma (List.mem_of_getLast? hlast))

/-! ## Holes -/

/-- `find_hole` for a mapping, the start of the next one, and the last mapping
of the `dl_map` it belongs to.  The address is `hole->address`; `none` when the
function returns before it is set. -/
def findHole (hint size : BitVec 64) (vma : Vma) (nextStart : Addr) (lastDl : Option Vma) :
    Option Addr × Bool :=
  if nextStart < hint then (none, false)
  else if lastDl.any (fun l => l.addr != vma.addr) then (none, false)
  else
    let address := if vmaEnd vma < hint then hint else vmaEnd vma
    (some address, size ≤ nextStart - address)

/-- `process_find_place_for_elf` on a list of mappings, with `last_dl_vma` of
the `dl_map` of each: the address as `int64_t`, or `-ENOENT`. -/
def processFindPlaceForElf (lastDl : Vma → Option Vma) (sentinel : Addr) (hint size : BitVec 64) :
    List Vma → Int
  | [] => -ENOENT
  | vma :: l =>
      let nextStart := (l.head?.map vmaStart).getD sentinel
      match findHole hint size vma nextStart (lastDl vma) with
      | (some address, true) => address.toInt
      | _ => processFindPlaceForElf lastDl sentinel hint size l

end Nsb
