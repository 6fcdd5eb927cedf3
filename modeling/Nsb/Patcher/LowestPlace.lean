import Nsb.Patcher.Placement

/-!
# The lowest place

`process_find_place_for_elf` goes over the mappings of a process from below and
takes the first gap with enough room.  A gap inside of an object does not count:
the mapping in front of it has to be outside of any `dl_map` or the last one of
its own.

The gap behind the last mapping ends at whatever `next_vma` reads there.  A number
below the end of the mapping makes the difference wrap around, and the gap counts
as large.  Nothing is mapped behind the last mapping, so the place is free all the
same.
-/

namespace Nsb

/-- The mappings of a process: in order and apart from each other.  The last one
may be a page of the kernel. -/
structure MapsList (l : List Vma) : Prop where
  below : l.Pairwise Vma.Below
  top : ∀ v ∈ l, v.addr.toNat + v.length.toNat < 2 ^ 64
  user : ∀ v ∈ l.dropLast, v.addr.toNat + v.length.toNat ≤ 2 ^ 47

instance (l : List Vma) : Decidable (MapsList l) :=
  decidable_of_iff (l.Pairwise Vma.Below ∧ (∀ v ∈ l, v.addr.toNat + v.length.toNat < 2 ^ 64) ∧
      ∀ v ∈ l.dropLast, v.addr.toNat + v.length.toNat ≤ 2 ^ 47)
    ⟨fun ⟨h1, h2, h3⟩ => ⟨h1, h2, h3⟩, fun h => ⟨h.below, h.top, h.user⟩⟩

/-- The mapping is outside of any `dl_map`, or the last one of its own. -/
def Closes (lastDl : Vma → Option Vma) (v : Vma) : Prop := ∀ l ∈ lastDl v, l.addr = v.addr

/-- From `b` on, which is not below the hint, the gap between a mapping and those
that follow has `size` free bytes. -/
structure RoomAt (hint size : BitVec 64) (v : Vma) (rest : List Vma) (b : Nat) : Prop where
  hint : hint.toNat ≤ b
  low : v.addr.toNat + v.length.toNat ≤ b
  high : ∀ next ∈ rest.head?, b + size.toNat ≤ next.addr.toNat

/-- A gap with room that is bounded by a following mapping, and the mappings in
front of it. -/
structure BoundedGap (lastDl : Vma → Option Vma) (hint size : BitVec 64) (l front : List Vma)
    (v next : Vma) (back : List Vma) (b : Nat) : Prop where
  split : l = front ++ v :: next :: back
  closes : Closes lastDl v
  room : RoomAt hint size v (next :: back) b

variable {lastDl : Vma → Option Vma} {sentinel : Addr} {hint size : BitVec 64}

/-! ## One gap -/

/-- The test of `find_hole` on a mapping that `back` follows. -/
def accepts (lastDl : Vma → Option Vma) (sentinel : Addr) (hint size : BitVec 64) (v : Vma)
    (back : List Vma) : Bool :=
  (findHole hint size v ((back.head?.map vmaStart).getD sentinel) (lastDl v)).2

/-- The place that `find_hole` accepts is the lowest one of the gap. -/
theorem room_of_accepts {v : Vma} {back : List Vma} {a : Addr}
    (htop : v.addr.toNat + v.length.toNat < 2 ^ 64) (hbelow : ∀ u ∈ back, v.Below u)
    (h : findHole hint size v ((back.head?.map vmaStart).getD sentinel) (lastDl v) =
      (some a, true)) :
    Closes lastDl v ∧ RoomAt hint size v back a.toNat ∧
      ∀ b, RoomAt hint size v back b → a.toNat ≤ b := by
  obtain ⟨hwhere, hhint, hend, hnext, hsize⟩ := findHole_true h
  have hendNat := vmaEnd_toNat htop
  refine ⟨?_, ⟨hhint, ?_, ?_⟩, ?_⟩
  · intro l hl
    simp only [findHole] at h
    split at h
    · cases h
    · split at h
      · cases h
      · rename_i hany
        rw [Option.mem_def.mp hl] at hany
        simpa using hany
  · rw [← hendNat]
    exact hend
  · intro next hmem
    rw [Option.mem_def.mp hmem] at hnext hsize
    have hle : v.addr.toNat + v.length.toNat ≤ next.addr.toNat :=
      hbelow next (List.mem_of_head? hmem)
    have hale : a ≤ next.addr := by
      rcases hwhere with rfl | rfl
      · exact hnext
      · rw [BitVec.le_def, hendNat]
        exact hle
    have hsize' : size ≤ next.addr - a := hsize
    bv_omega
  · intro b hb
    have h1 := hb.hint
    have h2 := hb.low
    rcases hwhere with rfl | rfl
    · exact h1
    · rw [hendNat]
      exact h2

/-- `find_hole` accepts a gap that has room up to the next mapping. -/
theorem accepts_of_room {v next : Vma} {back : List Vma} {b : Nat}
    (htop : v.addr.toNat + v.length.toNat < 2 ^ 64) (hcloses : Closes lastDl v)
    (hroom : RoomAt hint size v (next :: back) b) :
    accepts lastDl sentinel hint size v (next :: back) = true := by
  have hhigh : b + size.toNat ≤ next.addr.toNat := hroom.high next rfl
  have hhint := hroom.hint
  have hlow := hroom.low
  have hend := vmaEnd_toNat htop
  have hany : ¬ (lastDl v).any (fun l => l.addr != v.addr) = true := by
    cases hl : lastDl v with
    | none => exact Bool.false_ne_true
    | some l => simp [hcloses l hl]
  have hnext : ¬ vmaStart next < hint := by
    rw [BitVec.lt_def]
    show ¬ next.addr.toNat < hint.toNat
    omega
  show (findHole hint size v (vmaStart next) (lastDl v)).2 = true
  simp only [findHole]
  rw [if_neg hnext, if_neg hany]
  apply decide_eq_true
  show size ≤ next.addr - _
  split <;> bv_omega

/-! ## The search -/

/-- The search ends at the first mapping that `find_hole` accepts. -/
theorem processFindPlaceForElf_cases (lastDl : Vma → Option Vma) (sentinel : Addr)
    (hint size : BitVec 64) (l : List Vma) :
    (processFindPlaceForElf lastDl sentinel hint size l = -ENOENT ∧
      ∀ front v back, l = front ++ v :: back →
        accepts lastDl sentinel hint size v back = false) ∨
    ∃ front v back a, l = front ++ v :: back ∧
      findHole hint size v ((back.head?.map vmaStart).getD sentinel) (lastDl v) = (some a, true) ∧
      processFindPlaceForElf lastDl sentinel hint size l = a.toInt ∧
      ∀ front' v' back', l = front' ++ v' :: back' → front'.length < front.length →
        accepts lastDl sentinel hint size v' back' = false := by
  induction l with
  | nil =>
      refine .inl ⟨rfl, fun front v back h => ?_⟩
      cases front with
      | nil => cases h
      | cons u front => cases h
  | cons vma l induction =>
      cases hacc : accepts lastDl sentinel hint size vma l with
      | true =>
          obtain ⟨a, ha⟩ := findHole_accepts hacc
          refine .inr ⟨[], vma, l, a, rfl, ha, ?_, fun _ _ _ _ hlt => absurd hlt (by simp)⟩
          rw [processFindPlaceForElf, ha]
      | false =>
          have hrest : processFindPlaceForElf lastDl sentinel hint size (vma :: l) =
              processFindPlaceForElf lastDl sentinel hint size l := by
            rw [processFindPlaceForElf]
            split
            · rename_i a ha
              rw [accepts, ha] at hacc
              cases hacc
            · rfl
          rw [hrest]
          rcases induction with ⟨hnone, hall⟩ | ⟨front, v, back, a, hsplit, ha, hret, hfirst⟩
          · refine .inl ⟨hnone, fun front v back h => ?_⟩
            cases front with
            | nil => cases h; exact hacc
            | cons u front => cases h; exact hall front v back rfl
          · refine .inr ⟨vma :: front, v, back, a, by rw [hsplit]; rfl, ha, hret, ?_⟩
            intro front' v' back' h hlt
            cases front' with
            | nil => cases h; exact hacc
            | cons u front' =>
                obtain ⟨-, h⟩ := List.cons.inj h
                exact hfirst front' v' back' h (Nat.lt_of_succ_lt_succ hlt)

variable {l front front' back back' : List Vma} {v v' : Vma}

/-- Two ways to pick a mapping of the list: it is the same one, or one of them is in
front of the other. -/
theorem split_trichotomy (h : l = front ++ v :: back) (h' : l = front' ++ v' :: back') :
    front'.length < front.length ∨ (v' = v ∧ back' = back) ∨ v' ∈ back := by
  rcases Nat.lt_trichotomy front'.length front.length with hlt | heq | hgt
  · exact .inl hlt
  · rw [h] at h'
    obtain ⟨-, hrest⟩ := List.append_inj h' heq.symm
    obtain ⟨hv, hback⟩ := List.cons.inj hrest
    exact .inr (.inl ⟨hv.symm, hback.symm⟩)
  · right
    right
    have hget : l[front'.length]? = some v' := by
      rw [h', List.getElem?_append_right (Nat.le_refl _), Nat.sub_self]
      rfl
    rw [h, List.getElem?_append_right (by omega)] at hget
    obtain ⟨k, hk⟩ : ∃ k, front'.length - front.length = k + 1 :=
      ⟨front'.length - front.length - 1, by omega⟩
    rw [hk, List.getElem?_cons_succ] at hget
    exact List.mem_of_getElem? hget

/-- The place behind `v` is apart from every mapping. -/
theorem MapsList.free (maps : MapsList l) (hsplit : l = front ++ v :: back) {b : Nat}
    (hroom : RoomAt hint size v back b) :
    ∀ u ∈ l, u.addr.toNat + u.length.toNat ≤ b ∨ b + size.toNat ≤ u.addr.toNat := by
  have hbelow := maps.below
  rw [hsplit] at hbelow
  obtain ⟨-, hrest, hcross⟩ := List.pairwise_append.mp hbelow
  intro u hu
  rw [hsplit] at hu
  rcases List.mem_append.mp hu with hfront | hmem
  · have huv : u.addr.toNat + u.length.toNat ≤ v.addr.toNat :=
      hcross u hfront v (List.mem_cons_self ..)
    have hlow := hroom.low
    exact .inl (by omega)
  · rcases List.mem_cons.mp hmem with rfl | hback
    · exact .inl hroom.low
    · right
      cases back with
      | nil => cases hback
      | cons next rest =>
          have hnext := hroom.high next rfl
          rcases List.mem_cons.mp hback with rfl | hlater
          · exact hnext
          · have hnu : next.addr.toNat + next.length.toNat ≤ u.addr.toNat :=
              List.rel_of_pairwise_cons hrest.of_cons hlater
            omega

/-- A gap behind a later mapping is above every place of this one. -/
theorem MapsList.room_le (maps : MapsList l) (hsplit : l = front ++ v :: back) {a b : Nat}
    (hroom : RoomAt hint size v back a) (hmem : v' ∈ back)
    (hroom' : RoomAt hint size v' back' b) : a ≤ b := by
  have hlow := hroom'.low
  have hbelow := maps.below
  rw [hsplit] at hbelow
  cases back with
  | nil => cases hmem
  | cons next rest =>
      have hnext := hroom.high next rfl
      rcases List.mem_cons.mp hmem with rfl | hlater
      · omega
      · have hnv : next.addr.toNat + next.length.toNat ≤ v'.addr.toNat :=
          List.rel_of_pairwise_cons (List.pairwise_append.mp hbelow).2.1.of_cons hlater
        omega

/-- A gap in front of the accepted mapping has no room. -/
theorem MapsList.not_bounded (maps : MapsList l)
    (hfirst : ∀ front' v' back', l = front' ++ v' :: back' → front'.length < front.length →
      accepts lastDl sentinel hint size v' back' = false) {next : Vma} {b : Nat}
    (hgap : BoundedGap lastDl hint size l front' v' next back' b) :
    ¬ front'.length < front.length := by
  intro hlt
  have htop := maps.top v' (by rw [hgap.split]; simp)
  have hno := hfirst front' v' (next :: back') hgap.split hlt
  rw [accepts_of_room htop hgap.closes hgap.room] at hno
  cases hno

/-- A place is never above one of another gap with room. -/
theorem MapsList.lowest (maps : MapsList l) (hsplit : l = front ++ v :: back) {a : Nat}
    (hroom : RoomAt hint size v back a) (hmin : ∀ b, RoomAt hint size v back b → a ≤ b)
    (hfirst : ∀ front' v' back', l = front' ++ v' :: back' → front'.length < front.length →
      accepts lastDl sentinel hint size v' back' = false) {b : Nat}
    (hsplit' : l = front' ++ v' :: back') (hcloses : Closes lastDl v')
    (hroom' : RoomAt hint size v' back' b) : a ≤ b := by
  rcases split_trichotomy hsplit hsplit' with hlt | ⟨rfl, rfl⟩ | hmem
  · cases back' with
    | nil =>
        -- the last mapping is in front of no other one
        rw [hsplit] at hsplit'
        have hlen := congrArg List.length hsplit'
        simp at hlen
        omega
    | cons next rest => exact absurd hlt (maps.not_bounded hfirst ⟨hsplit', hcloses, hroom'⟩)
  · exact hmin b hroom'
  · exact maps.room_le hsplit hroom hmem hroom'

/-- The place behind a mapping that another one follows is in the lower half of the
address space when the hint is. -/
theorem MapsList.toInt_nonneg (maps : MapsList l) {next : Vma}
    (hsplit : l = front ++ v :: next :: back) {nextStart a : Addr} {lastDl : Option Vma}
    (ha : findHole hint size v nextStart lastDl = (some a, true)) (hhint : hint.toNat < 2 ^ 63) :
    0 ≤ a.toInt := by
  have hmem : v ∈ l.dropLast := by
    rw [hsplit]
    simp [List.dropLast_append_of_ne_nil]
  have huser := maps.user v hmem
  have hmax : a.toNat ≤ max hint.toNat (v.addr.toNat + v.length.toNat) := by
    rcases (findHole_true ha).1 with rfl | rfl
    · exact Nat.le_max_left ..
    · rw [vmaEnd_toNat (maps.top v (List.mem_of_mem_dropLast hmem))]
      exact Nat.le_max_right ..
  have hcond := BitVec.toInt_eq_toNat_cond a
  split at hcond <;> omega

/-- `process_find_place_for_elf` returns the lowest free place, and it finds every
gap that has room up to a following mapping. -/
theorem processFindPlaceForElf_lowest (l : List Vma) (lastDl : Vma → Option Vma)
    (sentinel : Addr) (hint size : BitVec 64) (maps : MapsList l) :
    (∀ a : Nat, processFindPlaceForElf lastDl sentinel hint size l = a →
      hint.toNat ≤ a ∧
      (∀ u ∈ l, u.addr.toNat + u.length.toNat ≤ a ∨ a + size.toNat ≤ u.addr.toNat) ∧
      ∀ front v back b, l = front ++ v :: back → Closes lastDl v → RoomAt hint size v back b →
        a ≤ b) ∧
    ((∃ front v next back b, BoundedGap lastDl hint size l front v next back b) →
      ∃ front v next back, ∃ a : Addr,
        processFindPlaceForElf lastDl sentinel hint size l = a.toInt ∧
        BoundedGap lastDl hint size l front v next back a.toNat ∧
        (∀ front' v' next' back' b, BoundedGap lastDl hint size l front' v' next' back' b →
          front.length ≤ front'.length) ∧
        (hint.toNat < 2 ^ 63 → 0 ≤ processFindPlaceForElf lastDl sentinel hint size l)) := by
  rcases processFindPlaceForElf_cases lastDl sentinel hint size l with
    ⟨hnone, hall⟩ | ⟨front, v, back, a, hsplit, ha, hret, hfirst⟩
  · refine ⟨fun a h => ?_, ?_⟩
    · rw [hnone] at h
      cases h
    · rintro ⟨front, v, next, back, b, hgap⟩
      have hno : ∀ front' v' back', l = front' ++ v' :: back' → front'.length < l.length →
          accepts lastDl sentinel hint size v' back' = false :=
        fun front' v' back' h _ => hall front' v' back' h
      have hlt : front.length < l.length := by
        rw [hgap.split]
        simp
      exact absurd hlt (maps.not_bounded hno hgap)
  · have hmem : v ∈ l := by
      rw [hsplit]
      simp
    have hbelow : ∀ u ∈ back, v.Below u := by
      have hpair := maps.below
      rw [hsplit] at hpair
      exact fun u hu => List.rel_of_pairwise_cons (List.pairwise_append.mp hpair).2.1 hu
    obtain ⟨hcloses, hroom, hmin⟩ := room_of_accepts (maps.top v hmem) hbelow ha
    refine ⟨fun n hn => ?_, ?_⟩
    · have heq : a.toNat = n := by
        rw [hret] at hn
        have hcond := BitVec.toInt_eq_toNat_cond a
        have hlt := a.isLt
        split at hcond <;> omega
      rw [← heq]
      refine ⟨hroom.hint, maps.free hsplit hroom, ?_⟩
      intro front' v' back' b hsplit' hcloses' hroom'
      exact maps.lowest hsplit hroom hmin hfirst hsplit' hcloses' hroom'
    · rintro ⟨front', v', next', back', b, hgap⟩
      have hle : front.length ≤ front'.length := Nat.not_lt.mp (maps.not_bounded hfirst hgap)
      cases back with
      | nil =>
          -- the gap is bounded, so the accepted mapping is not the last one
          have hlen := congrArg List.length (hsplit.symm.trans hgap.split)
          simp at hlen
          omega
      | cons next rest =>
          refine ⟨front, v, next, rest, a, hret, ⟨hsplit, hcloses, hroom⟩, ?_, ?_⟩
          · intro front'' v'' next'' back'' b'' hgap''
            exact Nat.not_lt.mp (maps.not_bounded hfirst hgap'')
          · intro hhint
            rw [hret]
            exact maps.toInt_nonneg hsplit ha hhint

/-- A program, two segments of a library with a gap between them, the stack, and the
page of the kernel. -/
def smallMaps : List Vma :=
  [{ addr := 0x400000, length := 0x1000 }, { addr := 0x500000, length := 0x1000 },
    { addr := 0x600000, length := 0x1000 }, { addr := 0x700000, length := 0x1000 },
    { addr := 0xffffffffff600000, length := 0x1000 }]

/-- The library owns the second and the third mapping. -/
def smallMapsLast (v : Vma) : Option Vma :=
  if v.addr = 0x500000 ∨ v.addr = 0x600000 then some { addr := 0x600000, length := 0x1000 }
  else none

/-- The gap inside of the library is left out. -/
theorem smallMaps_lowest :
    MapsList smallMaps ∧
      ∃ front v next back, ∃ a : Addr,
        processFindPlaceForElf smallMapsLast 0 0x500000 0x2000 smallMaps = a.toInt ∧
        BoundedGap smallMapsLast 0x500000 0x2000 smallMaps front v next back a.toNat ∧
        a = 0x601000 := by
  have maps : MapsList smallMaps := by decide
  refine ⟨maps, ?_⟩
  have hret : processFindPlaceForElf smallMapsLast 0 0x500000 0x2000 smallMaps = 0x601000 := by
    decide
  obtain ⟨front, v, next, back, a, ha, hgap, -, -⟩ :=
    (processFindPlaceForElf_lowest smallMaps smallMapsLast 0 0x500000 0x2000 maps).2
      ⟨smallMaps.take 2, { addr := 0x600000, length := 0x1000 },
        { addr := 0x700000, length := 0x1000 }, smallMaps.drop 4, 0x601000, rfl,
        by simp [Closes, smallMapsLast], by decide, by decide, by simp⟩
  refine ⟨front, v, next, back, a, ha, hgap, BitVec.eq_of_toInt_eq ?_⟩
  rw [← ha, hret]
  decide

end Nsb
