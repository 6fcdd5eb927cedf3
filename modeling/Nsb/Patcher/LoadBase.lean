import Nsb.Patcher.Elf

/-!
# Run-time addresses

An image that is mapped with load bias `b` has a symbol of value `v` at `b + v`.
nsb computes the address in two ways.  `dlm_load_base` starts from the
executable mapping, `dl_map_symbol_value` and `dl_get_symbol_value` from the
first one.

Neither start is the bias in general.  The bias is the address of the page that
link-time address zero is in, so the executable mapping starts there only if the
executable segment is on page zero.  `addressesAgree_iff` is the exact
condition, for objects read from a process and for objects mapped by nsb.
-/

namespace Nsb

/-! ## Images -/

/-- The `PT_LOAD` segments of a file. -/
def loadsOf (phdrs : List (Option Phdr)) : List Phdr :=
  phdrs.filterMap fun o => o.filter fun p => p.pType == PT_LOAD

/-- A segment is executable. -/
def Phdr.exec (p : Phdr) : Bool := p.pFlags &&& PF_X != 0

/-- The mappings of an image with bias `b`: one for each segment, at the bias
plus the start of its page, and exactly one of them executable. -/
structure ImageAt (ei : ElfInfo) (b : Addr) (vmas : List Vma) : Prop where
  place : (vmas.map fun v => (v.addr, isExec v)).Perm
    ((loadsOf ei.phdrs).map fun p => (b + elfPageStart p.pVaddr, p.exec))
  fits : ∀ p ∈ loadsOf ei.phdrs, b.toNat + p.pVaddr.toNat < 2 ^ 64
  oneExec : ∃ p, (loadsOf ei.phdrs).filter Phdr.exec = [p]

/-- The objects that nsb works with.  `collected` is one read from a process
that has the image mapped with bias `b`.  `pinned` is one that nsb makes from
the file and moves to a page-aligned hole. -/
inductive Built : DlMap → Addr → Prop where
  | collected {vmas : List Vma} {dlm : DlMap} {b : Addr} :
      (collectDlMaps vmas).2.2 = 0 → dlm ∈ (collectDlMaps vmas).2.1 →
      ImageAt dlm.ei b dlm.vmas → Built dlm b
  | pinned {ctx : Ctx} {id : Nat} {ei : ElfInfo} {path : Option String} {dlm₁ dlm : DlMap}
      {b : Addr} :
      (∀ o ∈ ei.phdrs, o ≠ none) → (∃ p, (loadsOf ei.phdrs).filter Phdr.exec = [p]) →
      createElfMmaps (allocDlMap id ei path) = (dlm₁, 0) → pinElfMmaps ctx dlm₁ = (dlm, 0) →
      b = BitVec.ofInt 64 (findPlace ctx dlm₁) → elfPageOffset b = 0 →
      (∀ p ∈ loadsOf ei.phdrs, b.toNat + p.pVaddr.toNat < 2 ^ 64) → Built dlm b

/-- A symbol with this name and a size.  A zero `st_name` is no name. -/
def Sym.Defines (sym : Sym) (name : String) : Prop :=
  sym.stName ≠ 0 ∧ sym.name = some name ∧ sym.stSize ≠ 0

instance (sym : Sym) (name : String) : Decidable (sym.Defines name) :=
  inferInstanceAs (Decidable (_ ∧ _))

/-- A symbol without a name or a size, or with another name. -/
def Sym.Skipped (sym : Sym) (name : String) : Prop :=
  sym.stName = 0 ∨ sym.stSize = 0 ∨ ∃ other, sym.name = some other ∧ other ≠ name

/-- The first dynamic symbol of a name. -/
def FirstSymbol (ei : ElfInfo) (name : String) (sym : Sym) : Prop :=
  sym.Defines name ∧ ∃ front back, ei.dynsym = some (front ++ sym :: back) ∧
    ∀ s ∈ front, s.Skipped name

/-- A dynamic symbol of value `v`, which is an `int64_t` above zero. -/
def HasSymbol (ei : ElfInfo) (name : String) (v : BitVec 64) : Prop :=
  v ≠ 0 ∧ v.toNat < 2 ^ 63 ∧ ∃ sym, FirstSymbol ei name sym ∧ sym.stValue = v

/-- No dynamic symbol of the name, or one that is not defined. -/
def LacksSymbol (ei : ElfInfo) (name : String) : Prop :=
  (∀ sym ∈ ei.dynsym.getD [], sym.Skipped name) ∨ ∃ sym, FirstSymbol ei name sym ∧ sym.stValue = 0

/-- Every address nsb computes is the bias plus the value. -/
structure AddressesAgree (dlm : DlMap) (b : Addr) : Prop where
  base : ∀ v, dlmLoadBase dlm + v = b + v
  symbol : ∀ name v, HasSymbol dlm.ei name v → dlMapSymbolValue dlm name = (b + v).toInt
  search : ∀ name v front back, HasSymbol dlm.ei name v →
    (∀ d ∈ front, LacksSymbol d.ei name) →
    dlGetSymbolValue name (front ++ dlm :: back) = (b + v).toInt

/-! ## Symbol values -/

theorem compareSymName_of_skipped {sym : Sym} {name : String} (h : sym.Skipped name) :
    compareSymName name sym = 0 := by
  rw [compareSymName]
  rcases h with h | h | ⟨other, h, hne⟩
  · exact if_pos h
  · simp [h]
  · simp [h, hne]

theorem compareSymName_of_defines {sym : Sym} {name : String} (h : sym.Defines name) :
    compareSymName name sym = 1 := by
  obtain ⟨hname, htext, hsize⟩ := h
  rw [compareSymName, if_neg hname, if_neg hsize, htext]
  exact if_pos rfl

theorem findSym_append {name : String} {front l : List Sym} (h : ∀ s ∈ front, s.Skipped name) :
    findSym name (front ++ l) = findSym name l := by
  induction front with
  | nil => rfl
  | cons sym front induction =>
      rw [List.forall_mem_cons] at h
      rw [List.cons_append, findSym, compareSymName_of_skipped h.1, induction h.2]
      rfl

theorem elfDynSymValue_of_first {ei : ElfInfo} {name : String} {sym : Sym}
    (h : FirstSymbol ei name sym) : elfDynSymValue ei name = sym.stValue.toInt := by
  obtain ⟨hdef, front, back, hsyms, hfront⟩ := h
  have hfind : findSym name (front ++ sym :: back) = .ok sym := by
    rw [findSym_append hfront, findSym, compareSymName_of_defines hdef]
    rfl
  rw [elfDynSymValue, elfFindDsymByName, hsyms]
  simp only [hfind]

theorem elfDynSymValue_of_lacks {ei : ElfInfo} {name : String} (h : LacksSymbol ei name) :
    elfDynSymValue ei name = 0 := by
  rcases h with hskip | ⟨sym, hfirst, hzero⟩
  · rw [elfDynSymValue, elfFindDsymByName]
    cases hsyms : ei.dynsym with
    | none => rfl
    | some syms =>
        have hskip' : ∀ s ∈ syms, s.Skipped name := by simpa [hsyms] using hskip
        have hfind : findSym name syms = .error (-ENOENT) := by
          rw [← List.append_nil syms, findSym_append hskip', findSym]
        simp only [hfind]
        rfl
  · rw [elfDynSymValue_of_first hfirst, hzero]
    rfl

theorem dlmFindSym_of_hasSymbol {dlm : DlMap} {name : String} {v : BitVec 64}
    (h : HasSymbol dlm.ei name v) : dlmFindSym name dlm = (1, dlMapStart dlm + v) := by
  obtain ⟨hne, hlt, sym, hfirst, rfl⟩ := h
  have hpos : ¬ sym.stValue.toInt ≤ 0 := by
    have hnat : sym.stValue.toNat ≠ 0 := fun h0 => hne (BitVec.eq_of_toNat_eq h0)
    rw [BitVec.toInt_eq_toNat_cond, if_pos (by omega)]
    omega
  rw [dlmFindSym, elfDynSymValue_of_first hfirst, if_neg hpos, BitVec.ofInt_toInt]

theorem dlMapSymbolValue_of_hasSymbol {dlm : DlMap} {name : String} {v : BitVec 64}
    (h : HasSymbol dlm.ei name v) : dlMapSymbolValue dlm name = (dlMapStart dlm + v).toInt := by
  rw [dlMapSymbolValue]
  rw [dlmFindSym_of_hasSymbol h]
  rfl

theorem dlGetSymbolValue_of_hasSymbol {dlm : DlMap} {name : String} {v : BitVec 64}
    (h : HasSymbol dlm.ei name v) (back : List DlMap) :
    ∀ {front : List DlMap}, (∀ d ∈ front, LacksSymbol d.ei name) →
      dlGetSymbolValue name (front ++ dlm :: back) = (dlMapStart dlm + v).toInt
  | [], _ => by
      rw [List.nil_append, dlGetSymbolValue, dlmFindSym_of_hasSymbol h]
      rfl
  | d :: front, hf => by
      have hd : dlmFindSym name d = (0, 0) := by
        rw [dlmFindSym]
        rw [elfDynSymValue_of_lacks (hf d (List.mem_cons_self ..))]
        rfl
      rw [List.cons_append, dlGetSymbolValue, hd]
      exact dlGetSymbolValue_of_hasSymbol h back fun e he => hf e (List.mem_cons_of_mem _ he)

/-- The two starts have to be the bias, the second one if there is a symbol. -/
theorem addressesAgree_iff_starts (dlm : DlMap) (b : Addr) :
    AddressesAgree dlm b ↔
      dlmLoadBase dlm = b ∧ ((∃ name v, HasSymbol dlm.ei name v) → dlMapStart dlm = b) := by
  constructor
  · intro h
    refine ⟨by simpa using h.base 0, ?_⟩
    rintro ⟨name, v, hs⟩
    have hv := h.symbol name v hs
    rw [dlMapSymbolValue_of_hasSymbol hs, BitVec.toInt_inj] at hv
    exact add_right_cancel hv
  · rintro ⟨hbase, hstart⟩
    refine ⟨fun v => by rw [hbase], fun name v hs => ?_, fun name v front back hs hf => ?_⟩
    · rw [dlMapSymbolValue_of_hasSymbol hs, hstart ⟨name, v, hs⟩]
    · rw [dlGetSymbolValue_of_hasSymbol hs back hf, hstart ⟨name, v, hs⟩]

/-! ## The starts of an image -/

variable {dlm : DlMap} {b : Addr}

theorem ImageAt.mem_of_vma {ei : ElfInfo} {vmas : List Vma} (h : ImageAt ei b vmas) {v : Vma}
    (hv : v ∈ vmas) :
    ∃ p ∈ loadsOf ei.phdrs, v.addr = b + elfPageStart p.pVaddr ∧ isExec v = p.exec := by
  have hm := h.place.mem_iff.mp (List.mem_map.mpr ⟨v, hv, rfl⟩)
  obtain ⟨p, hp, he⟩ := List.mem_map.mp hm
  obtain ⟨h1, h2⟩ := Prod.mk.inj he
  exact ⟨p, hp, h1.symm, h2.symm⟩

theorem ImageAt.mem_of_load {ei : ElfInfo} {vmas : List Vma} (h : ImageAt ei b vmas) {p : Phdr}
    (hp : p ∈ loadsOf ei.phdrs) :
    ∃ v ∈ vmas, v.addr = b + elfPageStart p.pVaddr ∧ isExec v = p.exec := by
  have hm := h.place.mem_iff.mpr (List.mem_map.mpr ⟨p, hp, rfl⟩)
  obtain ⟨v, hv, he⟩ := List.mem_map.mp hm
  obtain ⟨h1, h2⟩ := Prod.mk.inj he
  exact ⟨v, hv, h1, h2⟩

/-- The base of a shared object is its bias when the executable segment is on
page zero. -/
theorem dlmLoadBase_eq_iff (hok : DlMapOk dlm) (h : ImageAt dlm.ei b dlm.vmas)
    (hb : elfTypeDyn dlm.ei = false → b = 0) :
    dlmLoadBase dlm = b ↔
      (elfTypeDyn dlm.ei = true →
        ∀ p ∈ loadsOf dlm.ei.phdrs, p.exec = true → elfPageStart p.pVaddr = 0) := by
  rw [dlmLoadBase]
  cases hd : elfTypeDyn dlm.ei with
  | false => simp [hb hd]
  | true =>
      obtain ⟨p, hp⟩ := h.oneExec
      have hmem : p ∈ (loadsOf dlm.ei.phdrs).filter Phdr.exec := hp ▸ List.mem_singleton_self p
      obtain ⟨hload, hexec⟩ := List.mem_filter.mp hmem
      obtain ⟨v, hv, haddr, hve⟩ := h.mem_of_load hload
      have hex : dlm.execVma = some v := (hok.exec v).mpr ⟨hv, hve.trans hexec⟩
      have honly : ∀ q ∈ loadsOf dlm.ei.phdrs, q.exec = true → q = p := by
        intro q hq hqe
        have hq' : q ∈ (loadsOf dlm.ei.phdrs).filter Phdr.exec := List.mem_filter.mpr ⟨hq, hqe⟩
        rw [hp] at hq'
        exact List.mem_singleton.mp hq'
      simp only [hex, if_true, Option.map_some, Option.getD_some, vmaStart, haddr, forall_const]
      constructor
      · intro he q hq hqe
        rw [honly q hq hqe]
        exact add_eq_left.mp he
      · intro hz
        rw [hz p hload hexec]
        exact add_zero b

/-- The first mapping of an image starts at the bias when a segment is on page
zero. -/
theorem dlMapStart_eq_iff (hok : DlMapOk dlm) (h : ImageAt dlm.ei b dlm.vmas) :
    dlMapStart dlm = b ↔ ∃ p ∈ loadsOf dlm.ei.phdrs, elfPageStart p.pVaddr = 0 := by
  obtain ⟨p, hp⟩ := h.oneExec
  have hload : p ∈ loadsOf dlm.ei.phdrs :=
    (List.mem_filter.mp (hp ▸ List.mem_singleton_self p)).1
  obtain ⟨v, hv, -, -⟩ := h.mem_of_load hload
  cases hvs : dlm.vmas with
  | nil => rw [hvs] at hv; cases hv
  | cons u l =>
      have hstart : dlMapStart dlm = u.addr := by simp [dlMapStart, firstDlVma, hvs, vmaStart]
      obtain ⟨q, hq, hqa, -⟩ := h.mem_of_vma (v := u) (hvs ▸ List.mem_cons_self ..)
      rw [hstart]
      constructor
      · intro he
        exact ⟨q, hq, add_eq_left.mp (hqa ▸ he)⟩
      · rintro ⟨r, hr, hz⟩
        obtain ⟨x, hx, hxa, -⟩ := h.mem_of_load hr
        rw [hz, add_zero] at hxa
        have hle : u.addr ≤ b := by
          rw [← hxa]
          exact (hvs ▸ hok.sorted : VmaSorted (u :: l)).head_le x (hvs ▸ hx)
        -- no mapping of the image starts below the bias
        have hfit := h.fits q hq
        have hpage := elfPageStart_toNat q.pVaddr
        apply BitVec.eq_of_toNat_eq
        have hsum : u.addr.toNat = b.toNat + (elfPageStart q.pVaddr).toNat := by
          rw [hqa, BitVec.toNat_add, Nat.mod_eq_of_lt (by omega)]
        have hle' : u.addr.toNat ≤ b.toNat := hle
        omega

/-! ## Objects that nsb maps -/

theorem isExec_createElfVma (p : Phdr) : isExec (createElfVma p) = p.exec := by
  rw [isExec, createElfVma, phdrProt, Phdr.exec]
  by_cases hr : p.pFlags &&& PF_R = 0#32 <;> by_cases hw : p.pFlags &&& PF_W = 0#32 <;>
    by_cases hx : p.pFlags &&& PF_X = 0#32 <;>
    simp [hr, hw, hx, PROT_READ, PROT_WRITE, PROT_EXEC]

/-- The segments that `create_elf_mmaps` goes over end up in the object. -/
theorem createElfMmapsLoop_ok :
    ∀ {phdrs : List (Option Phdr)} {err : Int} {dlm dlm' : DlMap}, (∀ o ∈ phdrs, o ≠ none) →
      DlMapOk dlm → createElfMmapsLoop phdrs err dlm = (dlm', 0) →
      DlMapOk dlm' ∧ dlm'.vmas.Perm ((loadsOf phdrs).map createElfVma ++ dlm.vmas) ∧
        dlm'.vmas ≠ [] ∧ dlm'.ei = dlm.ei
  | [], err, dlm, dlm', _, hok, h => by
      rw [createElfMmapsLoop] at h
      split at h
      · cases (congrArg Prod.snd h : (-EINVAL : Int) = 0)
      · rename_i hne
        cases h
        exact ⟨hok, .refl _, fun hnil => hne (by rw [hnil]; rfl), rfl⟩
  | none :: _, _, _, _, hsome, _, _ => absurd rfl (hsome none (List.mem_cons_self ..))
  | some phdr :: l, err, dlm, dlm', hsome, hok, h => by
      have hl : ∀ o ∈ l, o ≠ none := fun o ho => hsome o (List.mem_cons_of_mem _ ho)
      rw [createElfMmapsLoop] at h
      by_cases ht : phdr.pType = PT_LOAD
      · have hloads : loadsOf (some phdr :: l) = phdr :: loadsOf l := by
          simp [loadsOf, Option.filter, ht]
        rw [if_neg (not_not_intro ht)] at h
        cases ha : addDlVmaSorted dlm (createElfVma phdr) with
        | error e =>
            rw [ha] at h
            exact absurd (congrArg Prod.snd h) (addDlVmaSorted_error_ne_zero ha)
        | ok d =>
            rw [ha] at h
            obtain ⟨hd, hperm, hei⟩ := addDlVmaSorted_ok hok ha
            obtain ⟨h1, h2, h3, h4⟩ := createElfMmapsLoop_ok hl hd h
            refine ⟨h1, h2.trans ?_, h3, h4.trans hei⟩
            rw [hloads, List.map_cons, List.cons_append]
            exact (hperm.append_left _).trans List.perm_middle
      · have hloads : loadsOf (some phdr :: l) = loadsOf l := by
          simp [loadsOf, Option.filter, ht]
        rw [if_pos ht] at h
        rw [hloads]
        exact createElfMmapsLoop_ok hl hok h

theorem pinElfMmaps_ok {ctx : Ctx} {dlm₁ : DlMap} (h : pinElfMmaps ctx dlm₁ = (dlm, 0)) :
    dlm = pinAll (BitVec.ofInt 64 (findPlace ctx dlm₁)) dlm₁ ∧ 0 ≤ findPlace ctx dlm₁ ∧
      dlMapCheckJumpRange ctx.targetDlm (BitVec.ofInt 64 (findPlace ctx dlm₁)) = 0 ∧
      dlMapCheckJumpRange ctx.targetDlm
        (BitVec.ofInt 64 (findPlace ctx dlm₁) + loadSize dlm₁) = 0 := by
  unfold pinElfMmaps at h
  dsimp only at h
  split at h
  · have := congrArg Prod.snd h
    dsimp only at this
    omega
  · split at h
    · cases (congrArg Prod.snd h : (-ERANGE : Int) = 0)
    · rename_i hrange
      rw [not_or, not_not, not_not] at hrange
      exact ⟨(congrArg Prod.fst h).symm, by omega, hrange⟩

theorem pageStart_add_toNat {x : BitVec 64} (hb : elfPageOffset b = 0)
    (hfit : b.toNat + x.toNat < 2 ^ 64) :
    (elfPageStart (b + x)).toNat = b.toNat + (elfPageStart x).toNat := by
  have hoff : b.toNat % 2 ^ 12 = 0 := by rw [← elfPageOffset_toNat, hb]; rfl
  rw [elfPageStart_toNat, elfPageStart_toNat, BitVec.toNat_add, Nat.mod_eq_of_lt hfit]
  omega

theorem pageStart_add {x : BitVec 64} (hb : elfPageOffset b = 0) :
    elfPageStart (b + x) = b + elfPageStart x := by
  have hoff : b.toNat % 2 ^ 12 = 0 := by rw [← elfPageOffset_toNat, hb]; rfl
  have hx := elfPageStart_toNat x
  apply BitVec.eq_of_toNat_eq
  rw [elfPageStart_toNat, BitVec.toNat_add, BitVec.toNat_add, hx]
  omega

theorem pinAll_ok (hok : DlMapOk dlm) (hb : elfPageOffset b = 0)
    (hfit : ∀ v ∈ dlm.vmas, b.toNat + v.addr.toNat < 2 ^ 64) : DlMapOk (pinAll b dlm) := by
  refine ⟨?_, fun v => ?_⟩
  · refine List.pairwise_map.mpr (hok.sorted.imp_of_mem ?_)
    intro u v hu hv hle
    have hle' : u.addr.toNat ≤ v.addr.toNat := hle
    show (elfPageStart (b + u.addr)).toNat ≤ (elfPageStart (b + v.addr)).toNat
    rw [pageStart_add_toNat hb (hfit u hu), pageStart_add_toNat hb (hfit v hv), elfPageStart_toNat,
      elfPageStart_toNat]
    omega
  · simp only [pinAll, Option.map_eq_some_iff, List.mem_map]
    constructor
    · rintro ⟨u, hu, rfl⟩
      obtain ⟨hmem, he⟩ := (hok.exec u).mp hu
      exact ⟨⟨u, hmem, rfl⟩, he⟩
    · rintro ⟨⟨u, hmem, rfl⟩, he⟩
      exact ⟨u, (hok.exec u).mpr ⟨hmem, he⟩, rfl⟩

/-- An object that nsb makes and moves to a hole is an image whose bias is the
hole. -/
theorem Built.image (h : Built dlm b) : DlMapOk dlm ∧ ImageAt dlm.ei b dlm.vmas := by
  cases h with
  | @collected vmas _ _ hret hmem himg => exact ⟨collectDlMaps_ok vmas dlm hmem, himg⟩
  | @pinned ctx id ei path dlm₁ _ _ hsome hone hcreate hpin hb hoff hfit =>
      obtain ⟨hok, hperm, -, hei⟩ := createElfMmapsLoop_ok hsome (allocDlMap_ok id ei path) hcreate
      obtain ⟨hdlm, -, -⟩ := pinElfMmaps_ok hpin
      rw [← hb] at hdlm
      have hvmas : dlm₁.vmas.Perm ((loadsOf ei.phdrs).map createElfVma) := by
        simpa [allocDlMap] using hperm
      have hei' : dlm.ei = ei := by rw [hdlm]; exact hei
      have hfit' : ∀ v ∈ dlm₁.vmas, b.toNat + v.addr.toNat < 2 ^ 64 := by
        intro v hv
        obtain ⟨p, hp, rfl⟩ := List.mem_map.mp (hvmas.mem_iff.mp hv)
        exact hfit p hp
      refine ⟨hdlm ▸ pinAll_ok hok hoff hfit', ?_, ?_, ?_⟩
      · rw [hei', hdlm]
        show ((dlm₁.vmas.map (pinElfMmap b)).map _).Perm _
        refine ((hvmas.map (pinElfMmap b)).map _).trans ?_
        rw [List.map_map, List.map_map]
        refine List.Perm.of_eq (List.map_congr_left fun p hp => ?_)
        have hx : isExec (pinElfMmap b (createElfVma p)) = p.exec := isExec_createElfVma p
        have ha : (pinElfMmap b (createElfVma p)).addr = b + elfPageStart p.pVaddr :=
          pageStart_add hoff
        simp only [Function.comp_apply, hx, ha]
      · rw [hei']
        exact hfit
      · rw [hei']
        exact hone

/-- The addresses of nsb are right exactly when, in a shared object, the
executable segment is on page zero, and, if there is a dynamic symbol to look
up, some segment is on page zero. -/
theorem addressesAgree_iff (h : Built dlm b) (hb : elfTypeDyn dlm.ei = false → b = 0) :
    AddressesAgree dlm b ↔
      (elfTypeDyn dlm.ei = true →
        ∀ p ∈ loadsOf dlm.ei.phdrs, p.exec = true → elfPageStart p.pVaddr = 0) ∧
      ((∃ name v, HasSymbol dlm.ei name v) →
        ∃ p ∈ loadsOf dlm.ei.phdrs, elfPageStart p.pVaddr = 0) := by
  obtain ⟨hok, himg⟩ := h.image
  rw [addressesAgree_iff_starts, dlmLoadBase_eq_iff hok himg hb, dlMapStart_eq_iff hok himg]

/-! ## Two layouts -/

/-- A shared object with two segments of one page and the given flags. -/
def twoPages (flags₀ flags₁ : BitVec 32) : ElfInfo :=
  { phdrs :=
      [some { pFlags := flags₀, pOffset := 0, pVaddr := 0, pFilesz := 0x1000 },
       some { pFlags := flags₁, pOffset := 0x1000, pVaddr := 0x1000, pFilesz := 0x1000 }] }

/-- Its mappings with bias `0x10000`. -/
def twoPagesVmas (flags₀ flags₁ prot₀ prot₁ : BitVec 32) : List Vma :=
  [{ addr := 0x10000, length := 0x1000, prot := prot₀, path := some "lib.so",
     mapFile := some (.elf (twoPages flags₀ flags₁)) },
   { addr := 0x11000, length := 0x1000, prot := prot₁, offset := 0x1000, path := some "lib.so",
     mapFile := some (.elf (twoPages flags₀ flags₁)) }]

/-- The object that `collect_dl_maps` makes of them. -/
def twoPagesDlm (flags₀ flags₁ prot₀ prot₁ : BitVec 32) : DlMap :=
  { id := 0, path := some "lib.so", vmas := twoPagesVmas flags₀ flags₁ prot₀ prot₁,
    ei := twoPages flags₀ flags₁,
    execVma := (twoPagesVmas flags₀ flags₁ prot₀ prot₁).find? isExec }

/-- Code on page zero, data behind it. -/
theorem codeFirst_built : Built (twoPagesDlm 5 6 5 3) 0x10000 :=
  @Built.collected (twoPagesVmas 5 6 5 3) _ _ rfl (List.mem_singleton_self _)
    ⟨.refl _, by decide, ⟨_, rfl⟩⟩

theorem codeFirst_agrees :
    Built (twoPagesDlm 5 6 5 3) 0x10000 ∧ AddressesAgree (twoPagesDlm 5 6 5 3) 0x10000 := by
  refine ⟨codeFirst_built,
    (addressesAgree_iff codeFirst_built (by decide)).mpr ⟨fun _ => by decide, ?_⟩⟩
  exact fun _ => ⟨_, List.mem_cons_self .., rfl⟩

/-- Constants on page zero and the code behind them, as linkers do that separate
the code: every jump is one page off. -/
theorem separateCode_misplaced :
    Built (twoPagesDlm 4 5 1 5) 0x10000 ∧ elfTypeDyn (twoPagesDlm 4 5 1 5).ei = true ∧
      dlmLoadBase (twoPagesDlm 4 5 1 5) + 0x1200 = 0x12200 ∧
      ¬ AddressesAgree (twoPagesDlm 4 5 1 5) 0x10000 := by
  refine ⟨@Built.collected (twoPagesVmas 4 5 1 5) _ _ rfl (List.mem_singleton_self _)
    ⟨.refl _, by decide, ⟨_, rfl⟩⟩, rfl, by decide, ?_⟩
  intro h
  exact absurd (h.base 0) (by decide)

end Nsb
