import Nsb.Patcher.Process
import Nsb.Service.LinkMap

/-!
# The link map from outside

`patcher/rtld.c`: the patcher reads the link map of the process element by
element.  Each read may fail.  `alloc` says whether the array can be made larger
when it has a number of elements.

A failing read of a dynamic entry is handed on as the value that was looked for.
When no read fails, the result is the list of symbol tables
(`rtldNeededArray_spec`).
-/

namespace Nsb

/-- `process_read_data` of a structure. -/
def processReadStruct {α : Type} (ft : Faults) (get : Mem → α) (w : World) : World × Except Int α :=
  let w' := { w with nread := w.nread + 1 }
  if ft.read w.nread = 0 then (w', .ok (get w.mem)) else (w', .error (-ft.read w.nread))

/-- The array of `rtld_needed_array`: the elements stored so far, and for how many
it was allocated last. -/
structure NeededArray where
  elems : List (BitVec 64) := []
  cap : Nat := 0

section

variable (ft : Faults)

/-- `rtld_dynamic_tag_val`. -/
def rtldDynamicTagVal (tag : BitVec 64) : Nat → Addr → World → Option (World × BitVec 64)
  | 0, _, _ => none
  | fuel + 1, d, w =>
      match processReadStruct ft (fun mem => (wordAt mem d, wordAt mem (d + 8))) w with
      | (w, .error err) => some (w, BitVec.ofInt 64 err)
      | (w, .ok (dTag, dVal)) =>
          if dTag = DT_NULL then some (w, BitVec.ofInt 64 (-ENOENT))
          else if dTag = tag then some (w, dVal)
          else rtldDynamicTagVal tag fuel (d + 16) w

variable (alloc : Nat → Bool)

/-- Store an address in the array.  Every tenth time the array is allocated anew,
for ten elements. -/
def storeAddress (a : BitVec 64) (arr : NeededArray) : Except Int NeededArray :=
  if arr.elems.length % 10 = 0 then
    if alloc arr.elems.length then .ok { elems := arr.elems ++ [a], cap := 10 }
    else .error (-ENOMEM)
  else .ok { arr with elems := arr.elems ++ [a] }

/-- The loop of `rtld_needed_array`. -/
def rtldLoop : Nat → Addr → NeededArray → World → Option (World × Except Int NeededArray)
  | 0, _, _, _ => none
  | fuel + 1, lmAddr, arr, w =>
      match processReadStruct ft (fun mem => (wordAt mem lmAddr, wordAt mem (lmAddr + offLd),
        wordAt mem (lmAddr + offNext))) w with
      | (w, .error err) => some (w, .error err)
      | (w, .ok (lAddr, lLd, lNext)) => do
          let (w, dtSymtabAddr) ← rtldDynamicTagVal ft DT_SYMTAB (fuel + 1) lLd w
          if dtSymtabAddr = BitVec.ofInt 64 (-ENOENT) then some (w, .error (-ENOENT))
          else
            match if lAddr.toInt ≤ dtSymtabAddr.toInt then storeAddress alloc dtSymtabAddr arr
              else .ok arr with
            | .error err => some (w, .error err)
            | .ok arr => if lNext ≠ 0 then rtldLoop fuel lNext arr w else some (w, .ok arr)

/-- `offsetof(struct r_debug, r_map)`. -/
def offRMap : Addr := 8

/-- `rtld_needed_array`: the return value and `*needed_array`. -/
def rtldNeededArray (fuel : Nat) (rDebugAddr : Addr) (w : World) :
    Option (World × Int × Option NeededArray) :=
  match processReadStruct ft (fun mem => wordAt mem (rDebugAddr + offRMap)) w with
  | (w, .error err) => some (w, err, none)
  | (w, .ok lmAddr) => do
      match ← rtldLoop ft alloc fuel lmAddr {} w with
      | (w, .error err) => some (w, err, none)
      | (w, .ok arr) => some (w, arr.elems.length, some arr)

end

/-! ## Reads that succeed -/

/-- The fuel that a walk over these objects takes. -/
def walkFuel : List LinkMap → Nat
  | [] => 0
  | lm :: l => lm.dyn.length + 1 + walkFuel l

section

variable {ft : Faults} (hread : ∀ n, ft.read n = 0)
include hread

theorem processReadStruct_ok {α : Type} (get : Mem → α) (w : World) :
    processReadStruct ft get w = ({ w with nread := w.nread + 1 }, .ok (get w.mem)) := by
  rw [processReadStruct, if_pos (hread _)]

theorem rtldDynamicTagVal_spec {tag : BitVec 64} {l : List Dyn} {a : Addr} {fuel : Nat} {w : World}
    (hdyn : DynAt w.mem a l) (hfuel : l.length < fuel) :
    ∃ w', rtldDynamicTagVal ft tag fuel a w = some (w', dynVal tag l) ∧ w'.mem = w.mem := by
  induction l generalizing a fuel w with
  | nil =>
      obtain ⟨fuel, rfl⟩ := Nat.exists_eq_succ_of_ne_zero (Nat.ne_of_gt hfuel)
      rw [rtldDynamicTagVal, processReadStruct_ok hread]
      exact ⟨{ w with nread := w.nread + 1 }, if_pos hdyn, rfl⟩
  | cons d l induction =>
      obtain ⟨fuel, rfl⟩ := Nat.exists_eq_succ_of_ne_zero (Nat.ne_of_gt (Nat.zero_lt_of_lt hfuel))
      obtain ⟨htag, hnull, hval, hrest⟩ := hdyn
      rw [rtldDynamicTagVal, processReadStruct_ok hread]
      dsimp only
      rw [htag, hval, if_neg hnull, dynVal]
      split
      · exact ⟨_, rfl, rfl⟩
      · exact @induction (a + 16) fuel { w with nread := w.nread + 1 } hrest
          (Nat.lt_of_succ_lt_succ hfuel)

omit hread in
theorem storeAddress_ok {alloc : Nat → Bool} (halloc : ∀ n, alloc n = true) (a : BitVec 64)
    (arr : NeededArray) :
    ∃ cap, storeAddress alloc a arr = .ok { elems := arr.elems ++ [a], cap := cap } := by
  rw [storeAddress]
  split
  · rw [halloc]
    exact ⟨10, rfl⟩
  · exact ⟨arr.cap, rfl⟩

/-- One round of the walk. -/
theorem rtldLoop_step {alloc : Nat → Bool} (halloc : ∀ n, alloc n = true) {lm : LinkMap}
    {l : List LinkMap} {a : Addr} {fuel : Nat} {arr : NeededArray} {w : World}
    (hat : LinkMapAt w.mem a (lm :: l)) (hfuel : lm.dyn.length < fuel + 1) :
    ∃ w', w'.mem = w.mem ∧
      ((lm.symtab = .error (-ENOENT) ∧
        rtldLoop ft alloc (fuel + 1) a arr w = some (w', .error (-ENOENT))) ∨
      (∃ addr cap, lm.symtab = .ok addr ∧
        rtldLoop ft alloc (fuel + 1) a arr w =
          if wordAt w.mem (a + offNext) ≠ 0 then
            rtldLoop ft alloc fuel (wordAt w.mem (a + offNext))
              { elems := arr.elems ++ if lm.above then [addr] else [], cap := cap } w'
          else
            some (w', .ok
              { elems := arr.elems ++ if lm.above then [addr] else [], cap := cap }))) := by
  obtain ⟨-, haddr, hdyn, -⟩ := hat
  obtain ⟨w', htag, hmem⟩ := @rtldDynamicTagVal_spec ft hread DT_SYMTAB lm.dyn _ (fuel + 1)
    { w with nread := w.nread + 1 } hdyn hfuel
  refine ⟨w', hmem, ?_⟩
  rw [rtldLoop, processReadStruct_ok hread]
  dsimp only
  rw [htag, haddr, LinkMap.symtab]
  by_cases hnone : dynVal DT_SYMTAB lm.dyn = BitVec.ofInt 64 (-ENOENT)
  · rw [if_pos hnone]
    exact .inl ⟨rfl, if_pos hnone⟩
  · rw [if_neg hnone]
    right
    simp only [Option.bind_eq_bind, Option.bind_some]
    rw [if_neg hnone]
    by_cases habove : lm.lAddr.toInt ≤ (dynVal DT_SYMTAB lm.dyn).toInt
    · obtain ⟨cap, hstore⟩ := storeAddress_ok halloc (dynVal DT_SYMTAB lm.dyn) arr
      have hkeep : lm.above = true := decide_eq_true habove
      refine ⟨_, cap, rfl, ?_⟩
      rw [if_pos habove, hstore, hkeep, if_pos rfl]
    · have hkeep : lm.above = false := decide_eq_false habove
      refine ⟨_, arr.cap, rfl, ?_⟩
      rw [if_neg habove, hkeep, if_neg Bool.false_ne_true, List.append_nil]

/-- The walk over the link map ends with the list of symbol tables. -/
theorem rtldLoop_spec {alloc : Nat → Bool} (halloc : ∀ n, alloc n = true) {lm : LinkMap}
    {l : List LinkMap} {a : Addr} {fuel : Nat} {arr : NeededArray} {w : World}
    (hat : LinkMapAt w.mem a (lm :: l)) (hfuel : walkFuel (lm :: l) ≤ fuel) :
    ∃ w' r, rtldLoop ft alloc fuel a arr w = some (w', r) ∧
      r.map NeededArray.elems = (neededList (lm :: l)).map (arr.elems ++ ·) := by
  induction l generalizing lm a fuel arr w with
  | nil =>
      rw [walkFuel] at hfuel
      obtain ⟨fuel, rfl⟩ := Nat.exists_eq_succ_of_ne_zero (show fuel ≠ 0 by omega)
      have hnext : wordAt w.mem (a + offNext) = 0 := hat.2.2.2
      obtain ⟨w', -, ⟨hsym, hloop⟩ | ⟨addr, cap, hsym, hloop⟩⟩ :=
        @rtldLoop_step ft hread alloc halloc lm [] a fuel arr w hat (by omega)
      · refine ⟨w', _, hloop, ?_⟩
        rw [neededList_cons_error hsym]
        rfl
      · rw [hnext, if_neg (Decidable.not_not.mpr rfl)] at hloop
        refine ⟨w', _, hloop, ?_⟩
        rw [neededList_cons_ok hsym, neededList, Except.map, Except.map, Except.map,
          List.append_nil]
  | cons lm' l induction =>
      rw [walkFuel] at hfuel
      obtain ⟨fuel, rfl⟩ := Nat.exists_eq_succ_of_ne_zero (show fuel ≠ 0 by omega)
      have hrest : LinkMapAt w.mem (wordAt w.mem (a + offNext)) (lm' :: l) := hat.2.2.2
      obtain ⟨w', hmem, ⟨hsym, hloop⟩ | ⟨addr, cap, hsym, hloop⟩⟩ :=
        @rtldLoop_step ft hread alloc halloc lm (lm' :: l) a fuel arr w hat (by omega)
      · refine ⟨w', _, hloop, ?_⟩
        rw [neededList_cons_error hsym]
        rfl
      · rw [if_pos hrest.1] at hloop
        obtain ⟨w'', r, hrec, hr⟩ := @induction lm' (wordAt w.mem (a + offNext)) fuel
          { elems := arr.elems ++ if lm.above then [addr] else [], cap := cap } w'
          (by rw [hmem]; exact hrest) (by omega)
        refine ⟨w'', r, hloop.trans hrec, hr.trans ?_⟩
        rw [neededList_cons_ok hsym]
        cases neededList (lm' :: l) with
        | error err => rfl
        | ok addrs =>
            rw [Except.map, Except.map, Except.map, List.append_assoc]

/-- `rtld_needed_array` returns the list of symbol tables. -/
theorem rtldNeededArray_spec {alloc : Nat → Bool} (halloc : ∀ n, alloc n = true) {l : List LinkMap}
    {rDebugAddr : Addr} {fuel : Nat} {w : World} (hne : l ≠ [])
    (hat : LinkMapAt w.mem (wordAt w.mem (rDebugAddr + offRMap)) l) (hfuel : walkFuel l ≤ fuel) :
    ∃ w' ret arr, rtldNeededArray ft alloc fuel rDebugAddr w = some (w', ret, arr) ∧
      (ret, arr.map NeededArray.elems) = neededResult (neededList l) := by
  obtain ⟨lm, l, rfl⟩ := List.exists_cons_of_ne_nil hne
  obtain ⟨w', r, hloop, hr⟩ := @rtldLoop_spec ft hread alloc halloc lm l _ fuel {}
    { w with nread := w.nread + 1 } hat hfuel
  have hempty : ((neededList (lm :: l)).map (({} : NeededArray).elems ++ ·)) =
    neededList (lm :: l) := by
    cases neededList (lm :: l) <;> rfl
  rw [hempty] at hr
  rw [rtldNeededArray, processReadStruct_ok hread]
  dsimp only
  rw [hloop, ← hr]
  cases r with
  | error err => exact ⟨w', err, none, rfl, rfl⟩
  | ok arr => exact ⟨w', arr.elems.length, some arr, rfl, rfl⟩

end

end Nsb
