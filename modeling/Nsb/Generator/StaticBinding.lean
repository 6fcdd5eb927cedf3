import Nsb.Generator.PatchSymbol

/-!
# Binding of static symbols

A static symbol of a patch is bound to a static object of the target with the
same name.  Such a name may stand in several places, and the generator looks
for it in one of three tables: among the DIEs below the DIE of the parent, among
those of the compile units of the target file, or in the symbol table.

Each table has its own test for a second candidate.  That of the compile units
is in two parts, `lookup` within a compile unit and the table of names.  The
latter marks a name that comes again with `None` and overwrites the mark at
once, so `lookup` sees the last compile unit of the name only.

The map of `get_dio` outlives a symbol.  `Reached` has the maps a run of the
generator reaches, and `DioMap.Sound` is the invariant.
-/

namespace Nsb

open Preorder (Entry EntryTree)

/-! ## Runs -/

/-- The maps after symbols of a patch have been resolved in a target, in any
number and order.  An exception ends the run. -/
inductive Reached (t : Target) : DioMap → Prop where
  | empty : Reached t .empty
  | resolve {m m' : DioMap} {sym : Symbol} {addr : Option Nat} :
      Reached t m → sym.resolve t m = .ok (addr, m') → Reached t m'

/-- Every object of the map stands for a DIE with the address it is found
under. -/
def DioMap.Sound (m : DioMap) : Prop :=
  ∀ addr dio, m addr = some (some dio) → dio.Valid ∧ dio.die.addr = some addr

theorem DioMap.Sound.update_none {m : DioMap} (hm : m.Sound) (addr : Nat) :
    DioMap.Sound (Function.update m addr (some none)) := by
  intro a d h
  by_cases ha : a = addr
  · subst ha
    rw [Function.update_self] at h
    cases h
  · rw [Function.update_of_ne ha] at h
    exact hm a d h

/-- An object at an address whose name is a prefix of one of the names. -/
def Dio.isAt (names : List String) (addr : Nat) (dio : Dio) : Bool :=
  dio.die.name.getD "" ≠ "" && isPrefix names (dio.die.name.getD "") && dio.die.addr = some addr

/-- The loop of `get_dio` adds the first object at every address that is not in
the map. -/
theorem DebugInfo.fillDioMap_eq {di : DebugInfo} {names : List String} {dios : List Dio}
    {m m' : DioMap} (h : di.fillDioMap names dios m = .ok m') (a : Nat) :
    m' a = (m a).or ((dios.find? (Dio.isAt names a)).map some) := by
  induction dios generalizing m with
  | nil =>
      cases h
      rw [List.find?_nil, Option.map_none, Option.or_none]
  | cons dio dios induction =>
      rw [DebugInfo.fillDioMap] at h
      obtain ⟨name, hname, h⟩ := bind_eq_ok_iff.mp h
      obtain ⟨_, _, rfl⟩ := Die.getDieName_eq_ok_iff.mp hname
      dsimp only at h
      -- an object that is passed over is not the one that is looked for
      have hskip (hm : di.fillDioMap names dios m = .ok m') (hnot : dio.isAt names a = false) :
          m' a = (m a).or (((dio :: dios).find? (Dio.isAt names a)).map some) := by
        rw [List.find?_cons_of_neg (by simp [hnot])]
        exact induction hm
      split at h
      · next hempty => exact hskip h (by simp [Dio.isAt, hempty])
      · next hne =>
          split at h
          · next hprefix => exact hskip h (by simp_all [Dio.isAt])
          · next hprefix =>
              obtain ⟨addr, haddr, h⟩ := bind_eq_ok_iff.mp h
              have heq := DebugInfo.eq_addr_of_getAddr haddr
              cases addr with
              | none => exact hskip h (by simp [Dio.isAt, ← heq])
              | some b =>
                  by_cases hb : b = a
                  · subst hb
                    have hat : dio.isAt names b = true := by
                      simp_all [Dio.isAt]
                    rw [induction h, List.find?_cons_of_pos hat, DioMap.setdefault]
                    cases hm : m b <;> simp [hm]
                  · have hat : dio.isAt names a = false := by
                      simp [Dio.isAt, ← heq, hb]
                    rw [induction h, List.find?_cons_of_neg (by simp [hat]), DioMap.setdefault]
                    split
                    · rfl
                    · rw [Function.update_of_ne (Ne.symm hb)]

theorem DebugInfo.fillDioMap_sound {di : DebugInfo} {names : List String} {dios : List Dio}
    {m m' : DioMap} (hm : m.Sound) (hvalid : ∀ dio ∈ dios, dio.Valid)
    (h : di.fillDioMap names dios m = .ok m') : m'.Sound := by
  intro addr dio hdio
  rw [DebugInfo.fillDioMap_eq h, Option.or_eq_some_iff] at hdio
  rcases hdio with hold | ⟨_, hnew⟩
  · exact hm addr dio hold
  · obtain ⟨d, hfind, heq⟩ := Option.map_eq_some_iff.mp hnew
    cases heq
    have hat := List.find?_some hfind
    simp only [Dio.isAt, Bool.and_eq_true, decide_eq_true_eq] at hat
    exact ⟨hvalid dio (List.mem_of_find?_eq_some hfind), hat.2⟩

/-- What `get_dio` finds has the address it was asked for. -/
theorem Target.getDio_sound {t : Target} {symAddr : Nat} {names : List String} {m m' : DioMap}
    {r : Option Dio} (hm : m.Sound) (h : t.getDio symAddr names m = .ok (r, m')) :
    m'.Sound ∧ ∀ dio, r = some dio → dio.Valid ∧ dio.die.addr = some symAddr := by
  rw [Target.getDio] at h
  split at h
  · next dio hdio =>
      cases h
      refine ⟨hm, ?_⟩
      rintro _ ⟨⟩
      exact hm symAddr dio hdio
  · obtain ⟨di, _, h⟩ := bind_eq_ok_iff.mp h
    obtain ⟨dios, hdios, h⟩ := bind_eq_ok_iff.mp h
    obtain ⟨m'', hfill, h⟩ := bind_eq_ok_iff.mp h
    have hsound := DebugInfo.fillDioMap_sound hm (DebugInfo.valid_of_mem_iterDios hdios) hfill
    split at h
    · next dio hdio =>
        cases h
        exact ⟨hsound, fun d hd => hsound symAddr d (hd ▸ hdio)⟩
    · cases h
      exact ⟨hsound.update_none symAddr, fun _ h => nomatch h⟩

/-! ## What is found -/

theorem Target.getSymtab_eq_ok {t : Target} {st : List ElfSym} (h : t.getSymtab = .ok st) :
    t.symtab = some st := by
  rw [Target.getSymtab] at h
  split at h
  · cases h
  · next heq =>
      cases h
      exact heq

theorem SymInfo.checkStatic_eq_ok_iff {info : SymInfo} {r : Option Dio} {dio : Dio} :
    info.checkStatic r = .ok dio ↔ r = some dio ∧ dio.die.has .external = false := by
  cases r with
  | none => simp [SymInfo.checkStatic]
  | some d =>
      rw [SymInfo.checkStatic]
      cases hext : d.die.has .external with
      | true =>
          constructor
          · intro h
            cases h
          · rintro ⟨⟨⟩, h⟩
            rw [hext] at h
            cases h
      | false =>
          constructor
          · intro h
            cases h
            exact ⟨rfl, hext⟩
          · rintro ⟨⟨⟩, _⟩
            rfl

/-- A lookup below an object finds its only immediate child of the target
name. -/
theorem SymInfo.lookupIn_eq_some_iff {info : SymInfo} {parentDio dio : Dio}
    (hvalid : parentDio.Valid) :
    info.lookupIn (some parentDio) = .ok (some dio) ↔ info.targetName ≠ "" ∧
      (∀ child ∈ parentDio.children, child.die.nameOk = true) ∧
      named info.targetName parentDio.children = [dio] := by
  rw [SymInfo.lookupIn, bind_eq_ok_iff]
  constructor
  · rintro ⟨_, hassert, h⟩
    have hname := of_decide_eq_true (pyAssert_eq_ok_iff.mp hassert)
    exact ⟨hname, (Dio.lookup_eq_ok_iff hvalid hname).mp h⟩
  · rintro ⟨hname, h⟩
    exact ⟨(), pyAssert_eq_ok_iff.mpr (decide_eq_true hname),
      (Dio.lookup_eq_ok_iff hvalid hname).mpr h⟩

/-- The object of a static symbol without a parent that has a target file: it
is looked for in the last compile unit of the name only. -/
structure FoundInFile (t : Target) (info : SymInfo) (filename : String) (cus earlier : List CU)
    (cu : CU) (dio : Dio) : Prop where
  target : t.cus = some cus
  readable : ∀ c ∈ cus, c.Readable
  units : unitsNamed filename cus = earlier ++ [cu]
  name : info.targetName ≠ ""
  names : ∀ child ∈ cu.topDio.children, child.die.nameOk = true
  only : named info.targetName cu.topDio.children = [dio]

theorem SymInfo.topGetDio_file_iff {t : Target} {info : SymInfo} {filename : String}
    {m m' : DioMap} {dio : Dio} (hfile : info.targetFile = some filename) :
    info.topGetDio t m = .ok (some dio, m') ↔
      m' = m ∧ ∃ cus earlier cu, FoundInFile t info filename cus earlier cu dio := by
  rw [SymInfo.topGetDio, hfile]
  dsimp only
  rw [bind_eq_ok_iff]
  constructor
  · rintro ⟨di, hdi, h⟩
    obtain ⟨r, hr, h⟩ := bind_eq_ok_iff.mp h
    cases h
    obtain ⟨l, hl, hread, hnames⟩ := DebugInfo.readable_of_init hdi
    rw [DebugInfo.lookup_eq (hnames filename)] at hr
    cases hlast : (unitsNamed filename l).getLast? with
    | none =>
        rw [hlast] at hr
        obtain ⟨_, _, hr⟩ := bind_eq_ok_iff.mp hr
        cases hr
    | some cu =>
        rw [hlast] at hr
        obtain ⟨hname, hok, honly⟩ := (SymInfo.lookupIn_eq_some_iff cu.topDio_valid).mp hr
        obtain ⟨earlier, hunits⟩ := List.getLast?_eq_some_iff.mp hlast
        exact ⟨rfl, l, earlier, cu, hl, hread, hunits, hname, hok, honly⟩
  · rintro ⟨rfl, l, earlier, cu, hfound⟩
    obtain ⟨di, hdi⟩ := DebugInfo.init_eq_ok hfound.readable
    obtain ⟨l', hl', _, hnames⟩ := DebugInfo.readable_of_init hdi
    cases hl'
    have hlookup := DebugInfo.lookup_eq (hnames filename)
    rw [hfound.units, List.getLast?_concat] at hlookup
    have hin := (SymInfo.lookupIn_eq_some_iff cu.topDio_valid).mpr
      ⟨hfound.name, hfound.names, hfound.only⟩
    rw [hfound.target]
    exact ⟨di, hdi, bind_eq_ok_iff.mpr ⟨some dio, by rw [hlookup]; exact hin, rfl⟩⟩

/-- The object of a static symbol that is looked for in the symbol table: it has
the address of the only entry of the name. -/
theorem SymInfo.topGetDio_symtab {t : Target} {info : SymInfo} {m m' : DioMap} {r : Option Dio}
    (hm : m.Sound) (hfile : info.targetFile = none) (h : info.topGetDio t m = .ok (r, m')) :
    m'.Sound ∧ ∀ dio, r = some dio → dio.Valid ∧ ∃ st sym, t.symtab = some st ∧
      getSymbolByName st info.targetName = [sym] ∧ dio.die.addr = some sym.stValue := by
  rw [SymInfo.topGetDio, hfile] at h
  obtain ⟨st, hst, h⟩ := bind_eq_ok_iff.mp h
  split at h
  · next sym hsym =>
      obtain ⟨hsound, hdio⟩ := Target.getDio_sound hm h
      exact ⟨hsound, fun dio hr =>
        ⟨(hdio dio hr).1, st, sym, Target.getSymtab_eq_ok hst, hsym, (hdio dio hr).2⟩⟩
  · cases h
    exact ⟨hm, fun _ h => nomatch h⟩

theorem Symbol.getDio_top_iff {t : Target} {info : SymInfo} {m m' : DioMap} {dio : Dio} :
    (Symbol.top info).getDio t m = .ok (dio, m') ↔ info.visibility = .visStatic ∧
      info.topGetDio t m = .ok (some dio, m') ∧ dio.die.has .external = false := by
  rw [Symbol.getDio]
  by_cases hvis : info.visibility = .visStatic
  · rw [if_neg (not_not_intro hvis), bind_eq_ok_iff]
    constructor
    · rintro ⟨⟨r, m''⟩, hr, h⟩
      obtain ⟨d, hd, h⟩ := bind_eq_ok_iff.mp h
      cases h
      obtain ⟨rfl, hext⟩ := SymInfo.checkStatic_eq_ok_iff.mp hd
      exact ⟨hvis, hr, hext⟩
    · rintro ⟨_, hr, hext⟩
      exact ⟨_, hr, bind_eq_ok_iff.mpr
        ⟨dio, SymInfo.checkStatic_eq_ok_iff.mpr ⟨rfl, hext⟩, rfl⟩⟩
  · rw [if_pos hvis]
    constructor
    · intro h
      cases h
    · rintro ⟨h, _⟩
      exact absurd h hvis

theorem Symbol.getDio_nested {t : Target} {info : SymInfo} {parent : Symbol} {m m' : DioMap}
    {dio : Dio} (h : (Symbol.nested info parent).getDio t m = .ok (dio, m')) :
    ∃ parentDio, parent.getDio t m = .ok (parentDio, m') ∧
      info.lookupIn (some parentDio) = .ok (some dio) := by
  rw [Symbol.getDio] at h
  split at h
  · cases h
  · obtain ⟨⟨p, m''⟩, hp, h⟩ := bind_eq_ok_iff.mp h
    obtain ⟨r, hr, h⟩ := bind_eq_ok_iff.mp h
    obtain ⟨d, hd, h⟩ := bind_eq_ok_iff.mp h
    cases h
    obtain ⟨rfl, _⟩ := SymInfo.checkStatic_eq_ok_iff.mp hd
    exact ⟨p, hp, hr⟩

theorem valid_of_named_eq {name : String} {dio child : Dio}
    (h : named name dio.children = [child]) : child.Valid := by
  have hmem : child ∈ named name dio.children := by rw [h]; exact List.mem_singleton_self _
  exact Dio.valid_of_mem_children (List.mem_filter.mp hmem).1

/-- The object of a symbol stands for a DIE, and the map stays sound. -/
theorem Symbol.getDio_sound {t : Target} {sym : Symbol} {m m' : DioMap} {dio : Dio}
    (hm : m.Sound) (h : sym.getDio t m = .ok (dio, m')) : dio.Valid ∧ m'.Sound := by
  induction sym generalizing dio with
  | top info =>
      obtain ⟨_, hfound, _⟩ := Symbol.getDio_top_iff.mp h
      cases hfile : info.targetFile with
      | some filename =>
          obtain ⟨rfl, _, _, cu, hin⟩ := (SymInfo.topGetDio_file_iff hfile).mp hfound
          exact ⟨valid_of_named_eq hin.only, hm⟩
      | none =>
          obtain ⟨hsound, hdio⟩ := SymInfo.topGetDio_symtab hm hfile hfound
          exact ⟨(hdio dio rfl).1, hsound⟩
  | nested info parent induction =>
      obtain ⟨p, hp, hlookup⟩ := Symbol.getDio_nested h
      obtain ⟨hvalid, hsound⟩ := induction hp
      obtain ⟨_, _, honly⟩ := (SymInfo.lookupIn_eq_some_iff hvalid).mp hlookup
      exact ⟨valid_of_named_eq honly, hsound⟩

theorem Symbol.staticResolve_eq_ok_iff {t : Target} {sym : Symbol} {m m' : DioMap}
    {addr : Option Nat} :
    sym.staticResolve t m = .ok (addr, m') ↔ ∃ dio di, sym.getDio t m = .ok (dio, m') ∧
      DebugInfo.init t.cus = .ok di ∧ di.getAddr dio = .ok addr := by
  rw [Symbol.staticResolve, bind_eq_ok_iff]
  constructor
  · rintro ⟨⟨dio, m''⟩, hdio, h⟩
    obtain ⟨di, hdi, h⟩ := bind_eq_ok_iff.mp h
    obtain ⟨a, ha, h⟩ := bind_eq_ok_iff.mp h
    cases h
    exact ⟨dio, di, hdio, hdi, ha⟩
  · rintro ⟨dio, di, hdio, hdi, ha⟩
    exact ⟨_, hdio, bind_eq_ok_iff.mpr ⟨di, hdi, bind_eq_ok_iff.mpr ⟨_, ha, rfl⟩⟩⟩

/-- Resolving a symbol keeps the map sound. -/
theorem Symbol.resolve_sound {t : Target} {sym : Symbol} {m m' : DioMap} {addr : Option Nat}
    (hm : m.Sound) (h : sym.resolve t m = .ok (addr, m')) : m'.Sound := by
  rw [Symbol.resolve] at h
  split at h
  · obtain ⟨dio, _, hdio, _, _⟩ := Symbol.staticResolve_eq_ok_iff.mp h
    exact (Symbol.getDio_sound hm hdio).2
  · obtain ⟨_, _, h⟩ := bind_eq_ok_iff.mp h
    cases h
    exact hm
  · obtain ⟨_, _, h⟩ := bind_eq_ok_iff.mp h
    cases h
    exact hm

/-- Every map a run reaches is sound. -/
theorem Reached.sound {t : Target} {m : DioMap} (h : Reached t m) : m.Sound := by
  induction h with
  | empty => exact fun _ _ h => nomatch h
  | resolve _ hres induction => exact Symbol.resolve_sound induction hres

/-! ## The candidates -/

/-- The addresses of the candidates of a static symbol, `none` for a candidate
without one.  They are the children of the target name of the DIE of the
parent.  Without a parent, they are those of all compile units of the target
file, and without a target file they are the entries of the symbol table. -/
def Symbol.candidates (t : Target) (m : DioMap) : Symbol → List (Option Nat)
  | .nested info parent =>
      match parent.getDio t m with
      | .ok (parentDio, _) =>
          (named info.targetName parentDio.children).map fun dio => dio.die.addr
      | .error _ => []
  | .top info =>
      match info.targetFile with
      | some filename =>
          ((unitsNamed filename (t.cus.getD [])).flatMap fun cu =>
            named info.targetName cu.topDio.children).map fun dio => dio.die.addr
      | none =>
          (getSymbolByName (t.symtab.getD []) info.targetName).map fun sym => some sym.stValue

/-- A static symbol without a parent that is bound to a child of the last
compile unit of the target file, although an earlier compile unit of that name
has a child of the target name too. -/
def Symbol.BindsLast (t : Target) : Symbol → Prop
  | .nested _ _ => False
  | .top info =>
      ∃ filename cus earlier cu dio, info.targetFile = some filename ∧
        FoundInFile t info filename cus earlier cu dio ∧ dio.die.has .external = false ∧
        dio.die.addr.isSome = true ∧ ∃ c ∈ earlier, named info.targetName c.topDio.children ≠ []

/-- The candidates in the compile units of a file: those of the earlier ones and
the one that is found. -/
theorem Symbol.candidates_file {t : Target} {m : DioMap} {info : SymInfo} {filename : String}
    {cus earlier : List CU} {cu : CU} {dio : Dio} (hfile : info.targetFile = some filename)
    (h : FoundInFile t info filename cus earlier cu dio) :
    (Symbol.top info).candidates t m =
      ((earlier.flatMap fun c => named info.targetName c.topDio.children).map
        fun d => d.die.addr) ++ [dio.die.addr] := by
  rw [Symbol.candidates, hfile]
  dsimp only
  rw [h.target, Option.getD_some, h.units, List.flatMap_append, List.flatMap_singleton, h.only,
    List.map_append]
  rfl

/-- A symbol whose object in the target file is static and has an address is
resolved to it. -/
theorem Symbol.staticResolve_of_found {t : Target} {m : DioMap} {info : SymInfo}
    {filename : String} {cus earlier : List CU} {cu : CU} {dio : Dio} {addr : Nat}
    (hstatic : info.visibility = .visStatic) (hfile : info.targetFile = some filename)
    (hfound : FoundInFile t info filename cus earlier cu dio)
    (hext : dio.die.has .external = false) (haddr : dio.die.addr = some addr) :
    (Symbol.top info).staticResolve t m = .ok (some addr, m) := by
  obtain ⟨di, hdi⟩ := DebugInfo.init_eq_ok hfound.readable
  rw [← hfound.target] at hdi
  have htop : info.topGetDio t m = .ok (some dio, m) :=
    (SymInfo.topGetDio_file_iff hfile).mpr ⟨rfl, cus, earlier, cu, hfound⟩
  have hdio := Symbol.getDio_top_iff.mpr ⟨hstatic, htop, hext⟩
  exact Symbol.staticResolve_eq_ok_iff.mpr
    ⟨dio, di, hdio, hdi, DebugInfo.getAddr_eq_some_iff.mpr haddr⟩

/-- Below a parent there is one candidate, the object that is found. -/
theorem Symbol.candidates_nested {t : Target} {m m' : DioMap} {info : SymInfo} {parent : Symbol}
    {dio : Dio} (hm : m.Sound) (h : (Symbol.nested info parent).getDio t m = .ok (dio, m')) :
    (Symbol.nested info parent).candidates t m = [dio.die.addr] := by
  obtain ⟨p, hp, hlookup⟩ := Symbol.getDio_nested h
  have hvalid := (Symbol.getDio_sound hm hp).1
  obtain ⟨_, _, honly⟩ := (SymInfo.lookupIn_eq_some_iff hvalid).mp hlookup
  rw [Symbol.candidates, hp]
  dsimp only
  rw [honly, List.map_singleton]

/-- In the symbol table there is one candidate, and the object that is found has
its address. -/
theorem Symbol.candidates_symtab {t : Target} {m m' : DioMap} {info : SymInfo} {dio : Dio}
    (hm : m.Sound) (hfile : info.targetFile = none)
    (h : info.topGetDio t m = .ok (some dio, m')) :
    (Symbol.top info).candidates t m = [dio.die.addr] := by
  obtain ⟨_, hsym⟩ := SymInfo.topGetDio_symtab hm hfile h
  obtain ⟨_, st, sym, hst, honly, hvalue⟩ := hsym dio rfl
  rw [Symbol.candidates, hfile]
  dsimp only
  rw [hst, Option.getD_some, honly, List.map_singleton, ← hvalue]

/-- In every run, the address a static symbol resolves to is that of its only
candidate, unless the symbol is bound to the last of several compile units. -/
theorem static_binding_iff {t : Target} {m : DioMap} {sym : Symbol} (hm : Reached t m)
    (hstatic : sym.info.visibility = .visStatic) :
    (∀ addr m', sym.resolve t m = .ok (some addr, m') → sym.candidates t m = [some addr]) ↔
      ¬ sym.BindsLast t := by
  rw [Symbol.resolve, hstatic]
  dsimp only
  constructor
  · intro h hlast
    cases sym with
    | nested info parent => exact hlast
    | top info =>
        obtain ⟨filename, cus, earlier, cu, dio, hfile, hfound, hext, haddr, c, hc, hne⟩ := hlast
        obtain ⟨addr, haddr⟩ := Option.isSome_iff_exists.mp haddr
        have hcand := h addr m (Symbol.staticResolve_of_found hstatic hfile hfound hext haddr)
        rw [Symbol.candidates_file hfile hfound, haddr] at hcand
        have hnil := List.append_left_eq_self.mp hcand
        exact hne (List.flatMap_eq_nil_iff.mp (List.map_eq_nil_iff.mp hnil) c hc)
  · intro hlast addr m' hres
    obtain ⟨dio, di, hdio, _, haddr⟩ := Symbol.staticResolve_eq_ok_iff.mp hres
    rw [DebugInfo.getAddr_eq_some_iff] at haddr
    rw [← haddr]
    cases sym with
    | nested info parent => exact Symbol.candidates_nested hm.sound hdio
    | top info =>
        obtain ⟨_, hfound, hext⟩ := Symbol.getDio_top_iff.mp hdio
        cases hfile : info.targetFile with
        | none => exact Symbol.candidates_symtab hm.sound hfile hfound
        | some filename =>
            obtain ⟨_, cus, earlier, cu, hin⟩ := (SymInfo.topGetDio_file_iff hfile).mp hfound
            have hnil :
                (earlier.flatMap fun c => named info.targetName c.topDio.children) = [] := by
              rw [List.flatMap_eq_nil_iff]
              intro c hc
              by_contra hne
              exact hlast ⟨filename, cus, earlier, cu, dio, hfile, hin, hext,
                Option.isSome_iff_exists.mpr ⟨addr, haddr⟩, c, hc, hne⟩
            rw [Symbol.candidates_file hfile hin, hnil]
            rfl

/-! ## Two compile units of one name -/

/-- The top DIE of a compile unit `util.c`. -/
def utilDie : Die := ⟨.compileUnit, [(.name, .strp "util.c")]⟩

/-- A static variable. -/
def utilVarDie (name : String) (addr : Nat) : Die :=
  ⟨.var, [(.name, .string name), (.location, .exprloc [.addr addr])]⟩

/-- A compile unit `util.c` with a static variable. -/
def utilUnit (off : Nat) (name : String) (addr : Nat) : CU where
  cuOffset := off
  unitLength := 27
  initialLengthFieldSize := 4
  cuDieOffset := off + 11
  dieAt := fun pos =>
    if pos = off + 11 then ⟨10, by decide, some (utilDie, true)⟩
    else if pos = off + 21 then ⟨9, by decide, some (utilVarDie name addr, false)⟩
    else ⟨1, by decide, none⟩
  tree := .branch utilDie 10 [.leaf (utilVarDie name addr) 9] 1
  laid := by
    simp [EntryTree.LaidOut, EntryTree.LaidOuts, EntryTree.size, EntryTree.sizes, Nat.add_assoc]
  fits := by simp [EntryTree.size, EntryTree.sizes, Nat.add_assoc]

/-- The first entry of every symbol table. -/
def nullSym : ElfSym := ⟨"", 0, true, .stbLocal, .stvDefault⟩

/-- A target with compile units of this name, each given by its offset and its
variable. -/
def utilTarget (units : List (Nat × String × Nat)) : Target where
  cus := some (units.map fun u => utilUnit u.1 u.2.1 u.2.2)
  symtab := some (nullSym :: units.map fun u => ⟨u.2.1, u.2.2, false, .stbLocal, .stvDefault⟩)
  dynsym := some [nullSym]

/-- A static reference to `count` in `util.c`. -/
def countRef : Symbol :=
  .top ⟨.symRef, .visStatic, "count", some ("patch.c", 3), "count", some "util.c", ["count"]⟩

/-- Two compile units `util.c`, of which the second one alone has a `count`. -/
theorem countRef_one_count :
    let t := utilTarget [(0, "total", 0x1000), (31, "count", 0x2000)]
    countRef.resolve t .empty = .ok (some 0x2000, .empty) ∧
      countRef.candidates t .empty = [some 0x2000] := by
  have hres : countRef.resolve (utilTarget [(0, "total", 0x1000), (31, "count", 0x2000)]) .empty =
      .ok (some 0x2000, .empty) := rfl
  refine ⟨hres, (static_binding_iff .empty rfl).mpr ?_ _ _ hres⟩
  rintro ⟨filename, cus, earlier, cu, dio, hfile, hfound, _, _, c, hc, hne⟩
  cases hfile
  have hcus := hfound.target
  cases hcus
  have hunits : [utilUnit 0 "total" 0x1000] ++ [utilUnit 31 "count" 0x2000] = earlier ++ [cu] :=
    hfound.units
  rw [← List.append_inj_left' hunits rfl] at hc
  rw [List.mem_singleton.mp hc] at hne
  exact hne rfl

/-- Both compile units have one, and the reference is bound to that of the
second. -/
theorem countRef_two_counts :
    let t := utilTarget [(0, "count", 0x1000), (31, "count", 0x2000)]
    Reached t .empty ∧ countRef.info.visibility = .visStatic ∧
      countRef.resolve t .empty = .ok (some 0x2000, .empty) ∧
      countRef.candidates t .empty ≠ [some 0x2000] :=
  ⟨.empty, rfl, rfl, by decide⟩

end Nsb
