import Nsb.Patcher.Rtld

/-!
# The array of symbol tables

`rtld_needed_array` collects the symbol tables in an array that is to grow by ten
elements at a time.  `xrealloc` gets the size of one step, not of all of them, so the
array never has room for more than ten elements.  The eleventh address is stored
behind its end.

`rtldStores` are the stores of a run.  `rtldLoop_storeAll` says that a run over a
link map is the fold of `storeAddress` over the addresses, with the same stores.
-/

namespace Nsb

/-- A store `arr[nr]`: the index, and the number of elements that the array was last
allocated for. -/
structure ArrayStore where
  nr : Nat
  cap : Nat
deriving DecidableEq

section

variable (ft : Faults) (alloc : Nat → Bool)

/-- The stores of the loop of `rtld_needed_array`. -/
def rtldLoopStores : Nat → Addr → NeededArray → World → List ArrayStore
  | 0, _, _, _ => []
  | fuel + 1, lmAddr, arr, w =>
      match processReadStruct ft (fun mem => (wordAt mem lmAddr, wordAt mem (lmAddr + offLd),
        wordAt mem (lmAddr + offNext))) w with
      | (_, .error _) => []
      | (w, .ok (lAddr, lLd, lNext)) =>
          match rtldDynamicTagVal ft DT_SYMTAB (fuel + 1) lLd w with
          | none => []
          | some (w, dtSymtabAddr) =>
              if dtSymtabAddr = BitVec.ofInt 64 (-ENOENT) then []
              else if lAddr.toInt ≤ dtSymtabAddr.toInt then
                match storeAddress alloc dtSymtabAddr arr with
                | .error _ => []
                | .ok arr' =>
                    ⟨arr.elems.length, arr'.cap⟩ ::
                      if lNext ≠ 0 then rtldLoopStores fuel lNext arr' w else []
              else if lNext ≠ 0 then rtldLoopStores fuel lNext arr w else []

/-- The stores of `rtld_needed_array`. -/
def rtldStores (fuel : Nat) (rDebugAddr : Addr) (w : World) : List ArrayStore :=
  match processReadStruct ft (fun mem => wordAt mem (rDebugAddr + offRMap)) w with
  | (_, .error _) => []
  | (w, .ok lmAddr) => rtldLoopStores ft alloc fuel lmAddr {} w

end

/-- The symbol tables that are addresses of their objects. -/
def symtabsAbove (l : List LinkMap) : List (BitVec 64) :=
  (l.filter LinkMap.above).map fun lm => dynVal DT_SYMTAB lm.dyn

/-! ## Storing a list of addresses -/

variable {alloc : Nat → Bool}

/-- Some addresses stored one after the other, and the stores made. -/
def storeAll (alloc : Nat → Bool) :
    List (BitVec 64) → NeededArray → Except Int NeededArray × List ArrayStore
  | [], arr => (.ok arr, [])
  | a :: l, arr =>
      match storeAddress alloc a arr with
      | .error err => (.error err, [])
      | .ok arr' =>
          ((storeAll alloc l arr').1, ⟨arr.elems.length, arr'.cap⟩ :: (storeAll alloc l arr').2)

/-- What one store does to an array that has room for ten elements once it has one. -/
theorem storeAddress_cases (alloc : Nat → Bool) (a : BitVec 64) {arr : NeededArray}
    (hcap : arr.elems ≠ [] → arr.cap = 10) :
    (arr.elems.length % 10 = 0 ∧ alloc arr.elems.length = false ∧
      storeAddress alloc a arr = .error (-ENOMEM)) ∨
    ((arr.elems.length % 10 = 0 → alloc arr.elems.length = true) ∧
      storeAddress alloc a arr = .ok { elems := arr.elems ++ [a], cap := 10 }) := by
  rw [storeAddress]
  split
  · rename_i hmod
    cases halloc : alloc arr.elems.length with
    | false => exact .inl ⟨hmod, rfl, rfl⟩
    | true => exact .inr ⟨fun _ => rfl, rfl⟩
  · rename_i hmod
    have hne : arr.elems ≠ [] := by
      intro hnil
      rw [hnil] at hmod
      exact hmod rfl
    refine .inr ⟨fun h => absurd h hmod, ?_⟩
    rw [← hcap hne]

theorem storeAll_error {a : BitVec 64} {arr : NeededArray} {err : Int} (l : List (BitVec 64))
    (h : storeAddress alloc a arr = .error err) :
    storeAll alloc (a :: l) arr = (.error err, []) := by
  rw [storeAll, h]

theorem storeAll_ok {a : BitVec 64} {arr arr' : NeededArray} (l : List (BitVec 64))
    (h : storeAddress alloc a arr = .ok arr') :
    storeAll alloc (a :: l) arr =
      ((storeAll alloc l arr').1, ⟨arr.elems.length, arr'.cap⟩ :: (storeAll alloc l arr').2) := by
  rw [storeAll, h]

/-- The array that comes out has all the addresses, and the only error is that of an
allocation. -/
theorem storeAll_result {l : List (BitVec 64)} {arr : NeededArray}
    (hcap : arr.elems ≠ [] → arr.cap = 10) :
    (storeAll alloc l arr).1 = .error (-ENOMEM) ∨
      ∃ cap, (storeAll alloc l arr).1 = .ok { elems := arr.elems ++ l, cap := cap } := by
  induction l generalizing arr with
  | nil => exact .inr ⟨arr.cap, by rw [storeAll, List.append_nil]⟩
  | cons a l induction =>
      rcases storeAddress_cases alloc a hcap with ⟨-, -, hstore⟩ | ⟨-, hstore⟩
      · rw [storeAll_error l hstore]
        exact .inl rfl
      · rw [storeAll_ok l hstore]
        have hrest := @induction { elems := arr.elems ++ [a], cap := 10 } fun _ => rfl
        rw [List.append_assoc] at hrest
        exact hrest

/-- Every store is one into ten elements, and its index is below the number of
addresses. -/
theorem storeAll_stores {l : List (BitVec 64)} {arr : NeededArray}
    (hcap : arr.elems ≠ [] → arr.cap = 10) :
    ∀ st ∈ (storeAll alloc l arr).2, st.cap = 10 ∧ st.nr < arr.elems.length + l.length := by
  induction l generalizing arr with
  | nil => exact List.forall_mem_nil _
  | cons a l induction =>
      rcases storeAddress_cases alloc a hcap with ⟨-, -, hstore⟩ | ⟨-, hstore⟩
      · rw [storeAll_error l hstore]
        exact List.forall_mem_nil _
      · rw [storeAll_ok l hstore]
        refine List.forall_mem_cons.mpr ⟨⟨rfl, by simp⟩, fun st hst => ?_⟩
        have hrest := @induction { elems := arr.elems ++ [a], cap := 10 } (fun _ => rfl) st hst
        simp only [List.length_append, List.length_cons, List.length_nil] at hrest ⊢
        exact ⟨hrest.1, by omega⟩

/-- An allocation that fails ends the stores. -/
theorem storeAll_stops {l : List (BitVec 64)} {arr : NeededArray} {n : Nat}
    (hcap : arr.elems ≠ [] → arr.cap = 10) (hn : n % 10 = 0) (hfail : alloc n = false)
    (hle : arr.elems.length ≤ n) : ∀ st ∈ (storeAll alloc l arr).2, st.nr < n := by
  induction l generalizing arr with
  | nil => exact List.forall_mem_nil _
  | cons a l induction =>
      rcases storeAddress_cases alloc a hcap with ⟨-, -, hstore⟩ | ⟨halloc, hstore⟩
      · rw [storeAll_error l hstore]
        exact List.forall_mem_nil _
      · have hne : arr.elems.length ≠ n := by
          intro heq
          rw [heq, hfail] at halloc
          cases halloc hn
        rw [storeAll_ok l hstore]
        refine List.forall_mem_cons.mpr ⟨by show arr.elems.length < n; omega, fun st hst => ?_⟩
        refine @induction { elems := arr.elems ++ [a], cap := 10 } (fun _ => rfl) ?_ st hst
        simp only [List.length_append, List.length_cons, List.length_nil]
        omega

/-- With more than ten addresses and two allocations, the eleventh one is stored
behind the end. -/
theorem storeAll_overflows {l : List (BitVec 64)} {arr : NeededArray}
    (hcap : arr.elems ≠ [] → arr.cap = 10) (h0 : alloc 0 = true) (h10 : alloc 10 = true)
    (hle : arr.elems.length ≤ 10) (hlen : 10 < arr.elems.length + l.length) :
    ⟨10, 10⟩ ∈ (storeAll alloc l arr).2 := by
  induction l generalizing arr with
  | nil =>
      rw [List.length_nil] at hlen
      omega
  | cons a l induction =>
      rcases storeAddress_cases alloc a hcap with ⟨hmod, hfail, -⟩ | ⟨-, hstore⟩
      · have hlen' : arr.elems.length = 0 ∨ arr.elems.length = 10 := by omega
        rcases hlen' with heq | heq <;> rw [heq] at hfail
        · rw [h0] at hfail
          cases hfail
        · rw [h10] at hfail
          cases hfail
      · rw [storeAll_ok l hstore]
        by_cases hlast : arr.elems.length = 10
        · rw [hlast]
          exact List.mem_cons_self ..
        · refine List.mem_cons_of_mem _ (@induction { elems := arr.elems ++ [a], cap := 10 }
            (fun _ => rfl) ?_ ?_)
          · simp only [List.length_append, List.length_cons, List.length_nil]
            omega
          · simp only [List.length_append, List.length_cons, List.length_nil] at hlen ⊢
            omega

/-! ## The walk over the link map -/

/-- A run of the loop: how it ends, and its stores. -/
def rtldRun (ft : Faults) (alloc : Nat → Bool) (fuel : Nat) (a : Addr) (arr : NeededArray)
    (w : World) : Option (World × Except Int NeededArray) × List ArrayStore :=
  (rtldLoop ft alloc fuel a arr w, rtldLoopStores ft alloc fuel a arr w)

/-- What follows an object. -/
def rtldRest (ft : Faults) (alloc : Nat → Bool) (fuel : Nat) (next : Addr) (arr : NeededArray)
    (w : World) : Option (World × Except Int NeededArray) × List ArrayStore :=
  if next ≠ 0 then rtldRun ft alloc fuel next arr w else (some (w, .ok arr), [])

section

variable {ft : Faults} (hread : ∀ n, ft.read n = 0)
include hread

/-- One round, at an object with a symbol table. -/
theorem rtldRun_round {lm : LinkMap} {l : List LinkMap} {a : Addr} {fuel : Nat} {w : World}
    (alloc : Nat → Bool) (arr : NeededArray) (hat : LinkMapAt w.mem a (lm :: l))
    (hsym : dynVal DT_SYMTAB lm.dyn ≠ BitVec.ofInt 64 (-ENOENT))
    (hfuel : lm.dyn.length < fuel + 1) :
    ∃ w', w'.mem = w.mem ∧
      (lm.above = false → rtldRun ft alloc (fuel + 1) a arr w =
        rtldRest ft alloc fuel (wordAt w.mem (a + offNext)) arr w') ∧
      (lm.above = true →
        (∀ err, storeAddress alloc (dynVal DT_SYMTAB lm.dyn) arr = .error err →
          rtldRun ft alloc (fuel + 1) a arr w = (some (w', .error err), [])) ∧
        ∀ arr', storeAddress alloc (dynVal DT_SYMTAB lm.dyn) arr = .ok arr' →
          rtldRun ft alloc (fuel + 1) a arr w =
            ((rtldRest ft alloc fuel (wordAt w.mem (a + offNext)) arr' w').1,
              ⟨arr.elems.length, arr'.cap⟩ ::
                (rtldRest ft alloc fuel (wordAt w.mem (a + offNext)) arr' w').2)) := by
  obtain ⟨-, haddr, hdyn, -⟩ := hat
  obtain ⟨w', htag, hmem⟩ := @rtldDynamicTagVal_spec ft hread DT_SYMTAB lm.dyn _ (fuel + 1)
    { w with nread := w.nread + 1 } hdyn hfuel
  refine ⟨w', hmem, ?_⟩
  rw [rtldRun, rtldLoop, rtldLoopStores, processReadStruct_ok hread]
  dsimp only
  rw [htag, haddr]
  simp only [Option.bind_eq_bind, Option.bind_some, if_neg hsym]
  refine ⟨fun hbelow => ?_, fun habove => ⟨fun err hstore => ?_, fun arr' hstore => ?_⟩⟩
  · have hlt : ¬ lm.lAddr.toInt ≤ (dynVal DT_SYMTAB lm.dyn).toInt := of_decide_eq_false hbelow
    rw [if_neg hlt, if_neg hlt, rtldRest]
    by_cases hnext : wordAt w.mem (a + offNext) ≠ 0
    · simp only [if_pos hnext, rtldRun]
    · simp only [if_neg hnext]
  · have hle : lm.lAddr.toInt ≤ (dynVal DT_SYMTAB lm.dyn).toInt := of_decide_eq_true habove
    rw [if_pos hle, if_pos hle, hstore]
  · have hle : lm.lAddr.toInt ≤ (dynVal DT_SYMTAB lm.dyn).toInt := of_decide_eq_true habove
    rw [if_pos hle, if_pos hle, hstore, rtldRest]
    by_cases hnext : wordAt w.mem (a + offNext) ≠ 0
    · simp only [if_pos hnext, rtldRun]
    · simp only [if_neg hnext]

omit hread in
theorem symtabsAbove_cons (lm : LinkMap) (l : List LinkMap) :
    symtabsAbove (lm :: l) =
      if lm.above then dynVal DT_SYMTAB lm.dyn :: symtabsAbove l else symtabsAbove l := by
  rw [symtabsAbove, List.filter_cons]
  split <;> rfl

/-- The walk stores the addresses one after the other. -/
theorem rtldRest_storeAll {l : List LinkMap} {a : Addr} {fuel : Nat} {arr : NeededArray} {w : World}
    (alloc : Nat → Bool) (hat : LinkMapAt w.mem a l)
    (hsym : ∀ lm ∈ l, dynVal DT_SYMTAB lm.dyn ≠ BitVec.ofInt 64 (-ENOENT))
    (hfuel : walkFuel l ≤ fuel) :
    ∃ w', rtldRest ft alloc fuel a arr w =
      (some (w', (storeAll alloc (symtabsAbove l) arr).1),
        (storeAll alloc (symtabsAbove l) arr).2) := by
  induction l generalizing a fuel arr w with
  | nil =>
      refine ⟨w, ?_⟩
      have hzero : a = 0 := hat
      rw [rtldRest, if_neg (not_not_intro hzero)]
      rfl
  | cons lm l induction =>
      obtain ⟨hlm, hl⟩ := List.forall_mem_cons.mp hsym
      rw [walkFuel] at hfuel
      obtain ⟨fuel, rfl⟩ := Nat.exists_eq_succ_of_ne_zero (show fuel ≠ 0 by omega)
      obtain ⟨w', hmem, hbelow, habove⟩ :=
        @rtldRun_round ft hread lm l a fuel w alloc arr hat hlm (by omega)
      have hnext : LinkMapAt w'.mem (wordAt w.mem (a + offNext)) l := by
        rw [hmem]
        exact hat.2.2.2
      rw [rtldRest, if_pos hat.1, symtabsAbove_cons]
      cases hcase : lm.above with
      | false =>
          obtain ⟨w'', hrest⟩ := @induction _ fuel arr w' hnext hl (by omega)
          exact ⟨w'', (hbelow hcase).trans hrest⟩
      | true =>
          rw [if_pos rfl]
          cases hstore : storeAddress alloc (dynVal DT_SYMTAB lm.dyn) arr with
          | error err =>
              refine ⟨w', ?_⟩
              rw [storeAll_error _ hstore]
              exact (habove hcase).1 err hstore
          | ok arr' =>
              obtain ⟨w'', hrest⟩ := @induction _ fuel arr' w' hnext hl (by omega)
              refine ⟨w'', ?_⟩
              rw [storeAll_ok _ hstore, (habove hcase).2 arr' hstore, hrest]

/-- `rtld_needed_array` stores the addresses of the link map one after the other. -/
theorem rtldNeededArray_storeAll {l : List LinkMap} {rDebugAddr : Addr} {fuel : Nat} {w : World}
    (alloc : Nat → Bool) (hne : l ≠ [])
    (hat : LinkMapAt w.mem (wordAt w.mem (rDebugAddr + offRMap)) l)
    (hsym : ∀ lm ∈ l, dynVal DT_SYMTAB lm.dyn ≠ BitVec.ofInt 64 (-ENOENT))
    (hfuel : walkFuel l ≤ fuel) :
    rtldStores ft alloc fuel rDebugAddr w = (storeAll alloc (symtabsAbove l) {}).2 ∧
      ∃ w', rtldNeededArray ft alloc fuel rDebugAddr w =
        match (storeAll alloc (symtabsAbove l) {}).1 with
        | .error err => some (w', err, none)
        | .ok arr => some (w', arr.elems.length, some arr) := by
  obtain ⟨w', hrun⟩ := @rtldRest_storeAll ft hread l _ fuel {} { w with nread := w.nread + 1 } alloc
    hat hsym hfuel
  have hfirst : wordAt w.mem (rDebugAddr + offRMap) ≠ 0 := by
    obtain ⟨lm, l, rfl⟩ := List.exists_cons_of_ne_nil hne
    exact hat.1
  rw [rtldRest, if_pos hfirst] at hrun
  obtain ⟨hloop, hstores⟩ := Prod.mk.inj hrun
  rw [rtldStores, rtldNeededArray, processReadStruct_ok hread]
  refine ⟨hstores, w', ?_⟩
  dsimp only
  rw [hloop]
  cases (storeAll alloc (symtabsAbove l) {}).1 <;> rfl

end

/-! ## Room for ten -/

/-- `rtld_needed_array` keeps to its array and returns the addresses of the link map:
every store is inside of what was allocated, and a returned array has the symbol
tables in order. -/
def ArrayOk (ft : Faults) (alloc : Nat → Bool) (fuel : Nat) (rDebugAddr : Addr) (w : World)
    (l : List LinkMap) : Prop :=
  (∀ st ∈ rtldStores ft alloc fuel rDebugAddr w, st.nr < st.cap) ∧
    ∃ w' ret arr, rtldNeededArray ft alloc fuel rDebugAddr w = some (w', ret, arr) ∧
      (arr = none → ret = -ENOMEM) ∧
      ∀ x, arr = some x → x.elems = symtabsAbove l ∧ ret = (symtabsAbove l).length

/-- The array is kept to exactly when there are at most ten addresses, or an allocation
fails before the eleventh one is stored. -/
theorem rtldNeededArray_ok_iff {ft : Faults} (hread : ∀ n, ft.read n = 0) {l : List LinkMap}
    {rDebugAddr : Addr} {fuel : Nat} {w : World} (alloc : Nat → Bool) (hne : l ≠ [])
    (hat : LinkMapAt w.mem (wordAt w.mem (rDebugAddr + offRMap)) l)
    (hsym : ∀ lm ∈ l, dynVal DT_SYMTAB lm.dyn ≠ BitVec.ofInt 64 (-ENOENT))
    (hfuel : walkFuel l ≤ fuel) :
    ArrayOk ft alloc fuel rDebugAddr w l ↔
      (symtabsAbove l).length ≤ 10 ∨ alloc 0 = false ∨ alloc 10 = false := by
  obtain ⟨hstores, w', hrun⟩ := rtldNeededArray_storeAll hread alloc hne hat hsym hfuel
  have hcap : ({} : NeededArray).elems ≠ [] → ({} : NeededArray).cap = 10 := fun h => absurd rfl h
  rw [ArrayOk, hstores]
  constructor
  · rintro ⟨hinside, -⟩
    refine Classical.byContradiction fun hno => ?_
    rw [not_or, not_or, Bool.not_eq_false, Bool.not_eq_false] at hno
    obtain ⟨hlen, h0, h10⟩ := hno
    have hmem := storeAll_overflows hcap h0 h10 (Nat.zero_le 10)
      (by simpa using hlen)
    exact absurd (hinside _ hmem) (by decide)
  · intro hcases
    refine ⟨fun st hst => ?_, w', ?_⟩
    · obtain ⟨hten, hnr⟩ := storeAll_stores hcap st hst
      rw [hten]
      rcases hcases with hlen | h0 | h10
      · exact Nat.lt_of_lt_of_le hnr (by simpa using hlen)
      · have hlt := storeAll_stops hcap rfl h0 (Nat.le_refl 0) st hst
        omega
      · exact storeAll_stops hcap rfl h10 (Nat.zero_le 10) st hst
    · rw [hrun]
      rcases @storeAll_result alloc (symtabsAbove l) {} hcap with herr | ⟨cap, hok⟩
      · rw [herr]
        exact ⟨_, none, rfl, fun _ => rfl, fun x hx => by cases hx⟩
      · rw [hok]
        refine ⟨_, _, rfl, fun h => (by cases h), fun x hx => ?_⟩
        cases hx
        exact ⟨rfl, rfl⟩

/-- A process with `n` objects, from `0x1000` on and `0x40` bytes apart, which share
their dynamic section at `0x800`; `_r_debug` is at `0x10`. -/
def objectsMem (n : Nat) : Mem := fun x =>
  let word : BitVec 64 :=
    if x.toNat / 8 = 0x18 / 8 then 0x1000
    else if x.toNat / 8 = 0x800 / 8 then DT_SYMTAB
    else if x.toNat / 8 = 0x808 / 8 then 0x900
    else if x.toNat < 0x1000 then 0
    else if x.toNat % 0x40 / 8 = 2 then 0x800
    else if x.toNat % 0x40 / 8 = 3 ∧ (x.toNat - 0x1000) / 0x40 + 1 < n then
      BitVec.ofNat 64 (0x1000 + 0x40 * ((x.toNat - 0x1000) / 0x40 + 1))
    else 0
  word.extractLsb' (8 * (x.toNat % 8)) 8

/-- Each of them has the symbol table at `0x900`. -/
def objects (n : Nat) : List LinkMap := List.replicate n { lAddr := 0, dyn := [⟨DT_SYMTAB, 0x900⟩] }

/-- Ten objects fit. -/
theorem tenObjects_ok :
    LinkMapAt (objectsMem 10) (wordAt (objectsMem 10) (0x10 + offRMap)) (objects 10) ∧
      ArrayOk {} (fun _ => true) 20 0x10 { mem := objectsMem 10 } (objects 10) := by
  have hat : LinkMapAt (objectsMem 10) (wordAt (objectsMem 10) (0x10 + offRMap)) (objects 10) := by
    decide
  exact ⟨hat, (rtldNeededArray_ok_iff (fun _ => rfl) (fun _ => true) (by decide) hat (by decide)
    (by decide)).mpr (.inl (by decide))⟩

/-- With eleven objects the last address is stored behind the end. -/
theorem elevenObjects_overflow :
    LinkMapAt (objectsMem 11) (wordAt (objectsMem 11) (0x10 + offRMap)) (objects 11) ∧
      ⟨10, 10⟩ ∈ rtldStores {} (fun _ => true) 22 0x10 { mem := objectsMem 11 } ∧
      ¬ ArrayOk {} (fun _ => true) 22 0x10 { mem := objectsMem 11 } (objects 11) := by
  have hat : LinkMapAt (objectsMem 11) (wordAt (objectsMem 11) (0x10 + offRMap)) (objects 11) := by
    decide
  obtain ⟨hstores, -⟩ := @rtldNeededArray_storeAll {} (fun _ => rfl) (objects 11) 0x10 22
    { mem := objectsMem 11 } (fun _ => true) (by decide) hat (by decide) (by decide)
  have hmem : (⟨10, 10⟩ : ArrayStore) ∈
      rtldStores {} (fun _ => true) 22 0x10 { mem := objectsMem 11 } := by
    rw [hstores]
    decide
  exact ⟨hat, hmem, fun h => absurd (h.1 _ hmem) (by decide)⟩

end Nsb
