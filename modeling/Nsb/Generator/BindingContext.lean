import Mathlib.Data.List.MinMax
import Mathlib.Data.List.Nodup
import Nsb.Generator.DieLookup
import Nsb.Generator.FileScopes

/-!
# Binding contexts follow the source order

What `process_meta` of `patch_symbol.py` computes, stated without its tables.
The target file of a static symbol is its own, or that of the last `VZP_FILE`
in front of it.  Its target name is that of its alias, or its own.

The tables are a list of scopes for each file, sorted by line, and a dictionary
of aliases from which every symbol takes its own.  They do the same when the
metadata have lines of their own and no two static symbols of a file have one
name.
-/

namespace Nsb

/-! ## Lines -/

/-- The place of a metadata object. -/
def Metadata.place (md : Metadata) : String × Nat := (md.filename, md.line)

/-- The place of a definition. -/
def ReadSymbol.defPlace (sym : ReadSymbol) : Option (String × Nat) :=
  if sym.kind = .symDef then sym.loc else none

/-- Every metadata object has its line for itself. -/
def LinesApart (mds : List Metadata) (syms : List ReadSymbol) : Prop :=
  (mds.map Metadata.place).Nodup ∧
    ∀ md ∈ mds, ∀ sym ∈ syms, sym.defPlace ≠ some md.place

/-- The loop over the definitions of regular objects marks their lines. -/
theorem nextLineStates_actR (locs : List (String × Nat)) {states : LineStates}
    (h : ∀ loc, states loc ≠ .stM) :
    ∃ states', nextLineStates .actR locs states = .ok states' ∧
      ∀ loc, states' loc = if loc ∈ locs then .stR else states loc := by
  induction locs generalizing states with
  | nil => exact ⟨states, rfl, fun loc => rfl⟩
  | cons first locs induction =>
      have hnext : nextLineState states first .actR =
          .ok (Function.update states first .stR) := by
        rw [nextLineState]
        cases hstate : states first with
        | stI => rfl
        | stR => rfl
        | stM => exact absurd hstate (h first)
      have hnot : ∀ loc, Function.update states first LineState.stR loc ≠ .stM := by
        intro loc
        rw [Function.update_apply]
        split
        · simp
        · exact h loc
      obtain ⟨states', hloop, hstates⟩ := induction hnot
      refine ⟨states', ?_, fun loc => ?_⟩
      · rw [nextLineStates, hnext]
        exact hloop
      · rw [hstates loc, Function.update_apply]
        by_cases hfirst : loc = first <;> simp [hfirst]

/-- A metadata object takes a line that is in the initial state. -/
theorem nextLineState_actM_eq_ok_iff {states states' : LineStates} {loc : String × Nat} :
    nextLineState states loc .actM = .ok states' ↔
      states loc = .stI ∧ states' = Function.update states loc .stM := by
  rw [nextLineState]
  cases states loc <;> simp [lineStateTable, eq_comm]

/-- The loop over the metadata goes through when their lines are free. -/
theorem nextLineStates_actM (locs : List (String × Nat)) (states : LineStates) :
    (∃ states', nextLineStates .actM locs states = .ok states') ↔
      locs.Nodup ∧ ∀ loc ∈ locs, states loc = .stI := by
  induction locs generalizing states with
  | nil => simp [nextLineStates]
  | cons first locs induction =>
      have hfree : (∀ loc ∈ locs, Function.update states first LineState.stM loc = .stI) ↔
          first ∉ locs ∧ ∀ loc ∈ locs, states loc = .stI := by
        constructor
        · intro h
          refine ⟨fun hmem => ?_, fun loc hloc => ?_⟩
          · have hfirst := h first hmem
            rw [Function.update_self] at hfirst
            cases hfirst
          · have hloc' := h loc hloc
            rw [Function.update_apply] at hloc'
            split at hloc'
            · cases hloc'
            · exact hloc'
        · rintro ⟨hnot, h⟩ loc hloc
          rw [Function.update_of_ne (fun heq : loc = first => hnot (heq ▸ hloc))]
          exact h loc hloc
      rw [List.nodup_cons, List.forall_mem_cons]
      constructor
      · rintro ⟨states', h⟩
        rw [nextLineStates, bind_eq_ok_iff] at h
        obtain ⟨states₁, hnext, hloop⟩ := h
        obtain ⟨hstate, rfl⟩ := nextLineState_actM_eq_ok_iff.mp hnext
        obtain ⟨hnodup, hrest⟩ := (induction _).mp ⟨states', hloop⟩
        obtain ⟨hnot, hall⟩ := hfree.mp hrest
        exact ⟨⟨hnot, hnodup⟩, hstate, hall⟩
      · rintro ⟨⟨hnot, hnodup⟩, hstate, hall⟩
        obtain ⟨states', hloop⟩ := (induction (Function.update states first .stM)).mpr
          ⟨hnodup, hfree.mpr ⟨hnot, hall⟩⟩
        refine ⟨states', ?_⟩
        rw [nextLineStates, bind_eq_ok_iff]
        exact ⟨_, nextLineState_actM_eq_ok_iff.mpr ⟨hstate, rfl⟩, hloop⟩

/-- `verify_lines` lets through what has a line for every metadata object. -/
theorem verifyLines_eq_ok_iff {mds : List Metadata} {syms : List ReadSymbol} :
    verifyLines mds syms = .ok () ↔ LinesApart mds syms := by
  have hstart : ∀ loc, (fun _ => .stI : LineStates) loc ≠ .stM := by simp
  obtain ⟨states, hstates, hline⟩ := nextLineStates_actR
    ((syms.filter fun sym => sym.kind = .symDef).filterMap ReadSymbol.loc) hstart
  have hdef : ∀ loc, loc ∈ (syms.filter fun sym => sym.kind = .symDef).filterMap ReadSymbol.loc ↔
      ∃ sym ∈ syms, sym.defPlace = some loc := by
    intro loc
    rw [List.mem_filterMap]
    constructor
    · rintro ⟨sym, hsym, hloc⟩
      rw [List.mem_filter, decide_eq_true_eq] at hsym
      exact ⟨sym, hsym.1, by rw [ReadSymbol.defPlace, if_pos hsym.2, hloc]⟩
    · rintro ⟨sym, hsym, hloc⟩
      rw [ReadSymbol.defPlace] at hloc
      split at hloc
      · next hkind => exact ⟨sym, List.mem_filter.mpr ⟨hsym, decide_eq_true hkind⟩, hloc⟩
      · cases hloc
  have hloop : verifyLines mds syms = .ok () ↔
      ∃ states', nextLineStates .actM (mds.map Metadata.place) states = .ok states' := by
    rw [verifyLines, hstates]
    show (do let _ ← nextLineStates .actM (mds.map Metadata.place) states; pure ()) = _ ↔ _
    rw [bind_eq_ok_iff]
    simp [pure, Except.pure]
  rw [hloop, nextLineStates_actM, LinesApart]
  refine and_congr_right fun _ => ?_
  simp only [List.forall_mem_map, hline]
  refine forall₂_congr fun md hmd => ?_
  constructor
  · intro hfree sym hsym hplace
    rw [if_pos ((hdef _).mpr ⟨sym, hsym, hplace⟩)] at hfree
    cases hfree
  · intro hnone
    rw [if_neg]
    intro hmem
    obtain ⟨sym, hsym, hplace⟩ := (hdef _).mp hmem
    exact hnone sym hsym hplace

/-! ## Aliases -/

/-- The alias of a metadata object. -/
def Metadata.aliasMd (md : Metadata) : Option Alias :=
  match md.body with
  | .tagAlias patchSymbol targetSymbol => some ⟨md.filename, md.line, patchSymbol, targetSymbol⟩
  | _ => none

/-- What an alias is found by. -/
def Alias.key (md : Alias) : String × String := (md.filename, md.patchSymbol)

theorem Alias.isFor_iff {md : Alias} {filename name : String} :
    md.isFor filename name = true ↔ md.key = (filename, name) := by
  simp [Alias.isFor, Alias.key]

/-- The table of the aliases is filled when no two have one key. -/
theorem collectAliases_eq_ok_iff {mds : List Metadata} {front aliases : List Alias}
    (hfront : (front.map Alias.key).Nodup) :
    collectAliases mds front = .ok aliases ↔
      ((front ++ mds.filterMap Metadata.aliasMd).map Alias.key).Nodup ∧
        aliases = front ++ mds.filterMap Metadata.aliasMd := by
  induction mds generalizing front with
  | nil => simp [collectAliases, hfront, eq_comm]
  | cons md mds induction =>
      have hskip (h : md.aliasMd = none) : (md :: mds).filterMap Metadata.aliasMd =
          mds.filterMap Metadata.aliasMd := List.filterMap_cons_none h
      rw [collectAliases]
      cases hbody : md.body with
      | tagAlias patchSymbol targetSymbol =>
          have halias : md.aliasMd = some ⟨md.filename, md.line, patchSymbol, targetSymbol⟩ := by
            rw [Metadata.aliasMd, hbody]
          rw [List.filterMap_cons_some halias]
          dsimp only
          split
          · next hany =>
              obtain ⟨old, hold, hfor⟩ := List.any_eq_true.mp hany
              have hkey := Alias.isFor_iff.mp hfor
              constructor
              · intro h
                cases h
              · rintro ⟨hnodup, _⟩
                rw [List.map_append, List.map_cons, List.nodup_append] at hnodup
                exact absurd hkey (hnodup.2.2 _ (List.mem_map_of_mem hold) _ List.mem_cons_self)
          · next hnone =>
              rw [induction, List.append_assoc, List.singleton_append]
              rw [List.map_append, List.nodup_append]
              refine ⟨hfront, List.nodup_singleton _, ?_⟩
              intro key hkey key' hkey'
              obtain ⟨old, hold, rfl⟩ := List.mem_map.mp hkey
              rw [List.map_singleton, List.mem_singleton] at hkey'
              rintro rfl
              exact hnone (List.any_eq_true.mpr ⟨old, hold, Alias.isFor_iff.mpr hkey'⟩)
      | tagFile targetFilename =>
          rw [hskip (by rw [Metadata.aliasMd, hbody])]
          exact induction hfront
      | tagSymbol symbol visibility targetFilename =>
          rw [hskip (by rw [Metadata.aliasMd, hbody])]
          exact induction hfront
      | other tag =>
          rw [hskip (by rw [Metadata.aliasMd, hbody])]
          exact induction hfront

/-- What a symbol is told apart by: its file and its name. -/
def ReadSymbol.key (sym : ReadSymbol) : Option String × String :=
  (sym.loc.map Prod.fst, sym.name)

/-- The alias is one of the symbol. -/
def Alias.Matches (md : Alias) (sym : ReadSymbol) : Prop :=
  sym.key = (some md.filename, md.patchSymbol)

instance (md : Alias) (sym : ReadSymbol) : Decidable (md.Matches sym) :=
  inferInstanceAs (Decidable (_ = _))

theorem eraseP_eq_filter {α : Type} {p : α → Bool} {l : List α}
    (h : l.Pairwise fun x y => ¬ (p x = true ∧ p y = true)) :
    l.eraseP p = l.filter fun x => !p x := by
  induction l with
  | nil => rfl
  | cons x l induction =>
      rw [List.pairwise_cons] at h
      cases hx : p x with
      | true =>
          rw [List.eraseP_cons_of_pos hx, List.filter_cons_of_neg (by simp [hx])]
          refine (List.filter_eq_self.mpr fun y hy => ?_).symm
          cases hy' : p y with
          | true => exact absurd ⟨hx, hy'⟩ (h.1 y hy)
          | false => rfl
      | false =>
          rw [List.eraseP_cons_of_neg (by simp [hx]), List.filter_cons_of_pos (by simp [hx]),
            induction h.2]

/-- The name a static symbol has in the target. -/
def ReadSymbol.nameIn (aliases : List Alias) (sym : ReadSymbol) : String :=
  (aliases.find? fun md => md.Matches sym).elim sym.name Alias.targetSymbol

/-- A symbol takes its alias out of the table. -/
theorem popAlias_eq {sym : ReadSymbol} {aliases : List Alias} (hsym : sym.loc.isSome = true)
    (haliases : (aliases.map Alias.key).Nodup) :
    popAlias sym aliases = (aliases.find? fun md => md.Matches sym,
      aliases.filter fun md => !decide (md.Matches sym)) := by
  obtain ⟨⟨filename, line⟩, hloc⟩ := Option.isSome_iff_exists.mp hsym
  have hfor : Alias.isFor filename sym.name = fun md => decide (md.Matches sym) := by
    funext md
    rw [Bool.eq_iff_iff, Alias.isFor_iff, decide_eq_true_eq, Alias.Matches, ReadSymbol.key, hloc]
    simp [Alias.key, eq_comm]
  rw [popAlias, hloc]
  dsimp only
  rw [eraseP_eq_filter, hfor]
  rw [List.Nodup, List.pairwise_map] at haliases
  refine haliases.imp ?_
  rintro md md' hne ⟨hmd, hmd'⟩
  exact hne ((Alias.isFor_iff.mp hmd).trans (Alias.isFor_iff.mp hmd').symm)

/-- Another symbol keeps its alias. -/
theorem ReadSymbol.nameIn_filter {sym other : ReadSymbol} {aliases : List Alias}
    (h : other.key ≠ sym.key) :
    other.nameIn (aliases.filter fun md => !decide (md.Matches sym)) = other.nameIn aliases := by
  have hother : (fun md : Alias => decide ((!decide (md.Matches sym)) = true ∧
      decide (md.Matches other) = true)) = fun md => decide (md.Matches other) := by
    funext md
    by_cases hmd : md.Matches other
    · have hsym : ¬ md.Matches sym := fun hsym => h (hmd.trans hsym.symm)
      simp [hmd, hsym]
    · simp [hmd]
  rw [ReadSymbol.nameIn, ReadSymbol.nameIn, List.find?_filter, hother]

/-! ## Scopes -/

/-- The scopes of a source file in front of a line. -/
def scopesBefore (mds : List Metadata) (filename : String) (line : Nat) :
    List (Nat × Option String) :=
  (mds.filterMap (Metadata.fileScope filename)).filter fun scope => scope.1 < line

/-- The target file name of a static symbol: its own if it is not empty, that of
the last `VZP_FILE` of its file in front of its line, or what it was. -/
def ReadSymbol.contextFilename (mds : List Metadata) (sym : ReadSymbol) : Option String :=
  if sym.namesFile then sym.targetFilename
  else
    match sym.loc with
    | none => sym.targetFilename
    | some (filename, line) =>
        match (scopesBefore mds filename line).argmax Prod.fst with
        | some scope => scope.2
        | none => sym.targetFilename

theorem fileScope_eq_some {filename : String} {md : Metadata} {scope : Nat × Option String}
    (h : md.fileScope filename = some scope) : md.place = (filename, scope.1) := by
  rw [Metadata.fileScope] at h
  split at h
  · split at h
    · next heq =>
        cases h
        rw [Metadata.place, heq]
    · cases h
  · cases h

/-- The scopes of a file have different lines. -/
theorem fileScope_lines_nodup {mds : List Metadata} (h : (mds.map Metadata.place).Nodup)
    (filename : String) : ((mds.filterMap (Metadata.fileScope filename)).map Prod.fst).Nodup := by
  rw [List.Nodup, List.pairwise_map] at h ⊢
  rw [List.pairwise_filterMap]
  refine h.imp ?_
  intro md md' hne scope hscope scope' hscope' heq
  rw [fileScope_eq_some hscope, fileScope_eq_some hscope', heq] at hne
  exact hne rfl

/-- In a sorted list, everything from the first element on that does not pass
fails. -/
theorem le_of_mem_dropWhile {line : Nat} {l : List (Nat × Option String)}
    (hsorted : l.Pairwise fun a b => a.1 ≤ b.1) {scope : Nat × Option String}
    (h : scope ∈ l.dropWhile fun scope => scope.1 < line) : line ≤ scope.1 := by
  induction l with
  | nil => cases h
  | cons first l induction =>
      rw [List.pairwise_cons] at hsorted
      rw [List.dropWhile_cons] at h
      split at h
      · exact induction hsorted.2 h
      · next hnot =>
          rw [decide_eq_true_eq, Nat.not_lt] at hnot
          rcases List.mem_cons.mp h with rfl | hmem
          · exact hnot
          · exact Nat.le_trans hnot (hsorted.1 scope hmem)

/-- The last scope that starts in front of a line is the one with the greatest
such line. -/
theorem argmax_eq_getLast? (line : Nat) {l scopes : List (Nat × Option String)}
    (hsorted : l.Pairwise fun a b => a.1 ≤ b.1) (hperm : l.Perm scopes)
    (hnodup : (scopes.map Prod.fst).Nodup) :
    (scopes.filter fun scope => scope.1 < line).argmax Prod.fst =
      (l.takeWhile fun scope => scope.1 < line).getLast? := by
  have hmem : ∀ scope, scope ∈ scopes.filter (fun scope => decide (scope.1 < line)) ↔
      scope ∈ l.takeWhile fun scope => scope.1 < line := by
    intro scope
    rw [List.mem_filter, ← hperm.mem_iff, decide_eq_true_eq]
    constructor
    · rintro ⟨hin, hlt⟩
      rw [← List.takeWhile_append_dropWhile (p := fun scope => decide (scope.1 < line)) (l := l),
        List.mem_append] at hin
      rcases hin with hin | hin
      · exact hin
      · exact absurd hlt (Nat.not_lt.mpr (le_of_mem_dropWhile hsorted hin))
    · intro hin
      have hlt := List.all_eq_true.mp List.all_takeWhile scope hin
      exact ⟨(List.takeWhile_prefix _).mem hin, of_decide_eq_true hlt⟩
  cases hlast : (l.takeWhile fun scope => scope.1 < line).getLast? with
  | none =>
      rw [List.argmax_eq_none, List.eq_nil_iff_forall_not_mem]
      intro scope hscope
      rw [hmem, List.getLast?_eq_none_iff.mp hlast] at hscope
      cases hscope
  | some last =>
      have hmax : ∀ scope ∈ scopes.filter (fun scope => decide (scope.1 < line)),
          scope.1 ≤ last.1 := by
        intro scope hscope
        rw [hmem] at hscope
        have hpair := hsorted.sublist (List.takeWhile_sublist fun s => decide (s.1 < line))
        obtain ⟨init, hinit⟩ := List.getLast?_eq_some_iff.mp hlast
        rw [hinit] at hscope hpair
        rcases List.mem_append.mp hscope with hfront | heq
        · exact (List.pairwise_append.mp hpair).2.2 scope hfront last (List.mem_singleton_self _)
        · rw [List.mem_singleton.mp heq]
      rw [List.argmax_eq_some_iff]
      have hin := (hmem last).mpr (List.mem_of_getLast? hlast)
      refine ⟨hin, hmax, fun scope hscope hle => ?_⟩
      have heq : scope = last := by
        refine List.inj_on_of_nodup_map hnodup (List.mem_filter.mp hscope).1
          (List.mem_filter.mp hin).1 ?_
        exact Nat.le_antisymm (hmax scope hscope) hle
      rw [heq]

/-- The scope in front of the place of the bisection. -/
theorem getElem?_bisect_pred {line : Nat} {l : List (Nat × Option String)} :
    0 < bisect (fun scope => line ≤ scope.1) l →
      l[bisect (fun scope => line ≤ scope.1) l - 1]? =
        (l.takeWhile fun scope => scope.1 < line).getLast? := by
  have hnot : (fun scope : Nat × Option String => !decide (line ≤ scope.1)) =
      fun scope => decide (scope.1 < line) := by
    funext scope
    rw [← decide_not]
    exact decide_eq_decide.mpr Nat.not_le
  rw [bisect, hnot]
  intro hpos
  obtain ⟨back, hback⟩ := List.takeWhile_prefix (fun s => decide (s.1 < line)) (l := l)
  generalize l.takeWhile (fun s => decide (s.1 < line)) = front at hback hpos ⊢
  subst hback
  rw [List.getLast?_eq_getElem?, List.getElem?_append_left (by omega)]

/-- `resolve_file_scopes` finds the context of a symbol. -/
theorem ReadSymbol.scopeFilename_eq {mds : List Metadata} (h : (mds.map Metadata.place).Nodup)
    (sym : ReadSymbol) : sym.scopeFilename mds = .ok (sym.contextFilename mds) := by
  rw [ReadSymbol.scopeFilename, ReadSymbol.contextFilename]
  split
  · rfl
  · rcases sym.loc with _ | ⟨filename, line⟩
    · rfl
    · have hsorted : (fileScopes mds filename).Pairwise fun a b => a.1 ≤ b.1 :=
        List.pairwise_insertionSort _ _
      have hargmax := argmax_eq_getLast? line hsorted (List.perm_insertionSort _ _)
        (fileScope_lines_nodup h filename)
      dsimp only
      rw [scopesBefore, hargmax]
      cases hscopes : fileScopes mds filename with
      | nil => rfl
      | cons first rest =>
          dsimp only
          by_cases hfirst : first.1 < line
          · have hpos : 0 < bisect (fun scope => line ≤ scope.1) (first :: rest) := by
              rw [bisect, List.takeWhile_cons_of_pos (by simpa using hfirst)]
              exact Nat.succ_pos _
            have htake : ((first :: rest).takeWhile fun scope => scope.1 < line) ≠ [] := by
              rw [List.takeWhile_cons_of_pos (by simpa using hfirst)]
              exact List.cons_ne_nil _ _
            rw [if_pos hfirst, getElem?_bisect_pred hpos, List.getLast?_eq_some_getLast htake,
              decide_eq_true hpos]
            rfl
          · rw [if_neg hfirst, List.takeWhile_cons_of_neg (by simpa using hfirst)]
            rfl

/-! ## The loop -/

/-- A symbol with its context. -/
def ReadSymbol.bound (mds : List Metadata) (aliases : List Alias) (sym : ReadSymbol) :
    ReadSymbol :=
  if sym.visibility = .visStatic then
    { sym with targetName := sym.nameIn aliases, targetFilename := sym.contextFilename mds }
  else sym

/-- Symbols as `read_patch` collects them: static symbols and definitions have a
place, and no two static symbols of a file have one name. -/
structure SymbolsApart (syms : List ReadSymbol) : Prop where
  placed : ∀ sym ∈ syms, sym.visibility = .visStatic ∨ sym.kind = .symDef → sym.loc.isSome = true
  apart : syms.Pairwise fun s s' => s.visibility = .visStatic → s'.visibility = .visStatic →
    s'.key ≠ s.key

/-- A nested static reference that names a file. -/
def ReadSymbol.NestedNamesFile (sym : ReadSymbol) : Prop :=
  sym.visibility = .visStatic ∧ sym.kind = .symRef ∧ sym.parent.isSome = true ∧
    sym.namesFile = true

/-- A static symbol that an alias matches. -/
def Alias.Used (syms : List ReadSymbol) (md : Alias) : Prop :=
  ∃ sym ∈ syms, sym.visibility = .visStatic ∧ md.Matches sym

theorem SymbolsApart.of_cons {sym : ReadSymbol} {syms : List ReadSymbol}
    (h : SymbolsApart (sym :: syms)) : SymbolsApart syms :=
  ⟨fun s hs => h.placed s (List.mem_cons_of_mem _ hs), (List.pairwise_cons.mp h.apart).2⟩

/-- Keys that are new, each of them once. -/
def NewKeys (keys defined : List (Option String × String)) : Prop :=
  keys.Nodup ∧ ∀ key ∈ keys, key ∉ defined

theorem newKeys_cons_iff {key : Option String × String}
    {keys defined : List (Option String × String)} :
    NewKeys (key :: keys) defined ↔ key ∉ defined ∧ NewKeys keys (key :: defined) := by
  rw [NewKeys, NewKeys, List.nodup_cons, List.forall_mem_cons]
  constructor
  · rintro ⟨⟨hnot, hnodup⟩, hkey, hkeys⟩
    refine ⟨hkey, hnodup, fun k hk hmem => ?_⟩
    rcases List.mem_cons.mp hmem with rfl | hdefined
    · exact hnot hk
    · exact hkeys k hk hdefined
  · rintro ⟨hkey, hnodup, hkeys⟩
    refine ⟨⟨fun hmem => hkeys key hmem List.mem_cons_self, hnodup⟩, hkey, fun k hk hdefined => ?_⟩
    exact hkeys k hk (List.mem_cons_of_mem _ hdefined)

/-- What the loop needs to go through. -/
structure ScopesOk (mds : List Metadata) (syms : List ReadSymbol) (aliases : List Alias)
    (defined : List (Option String × String)) : Prop where
  nested : ∀ sym ∈ syms, ¬ sym.NestedNamesFile
  keys : NewKeys (definedLocs (syms.map (ReadSymbol.bound mds aliases))) defined
  used : ∀ md ∈ aliases, md.Used syms

/-- The key of a static symbol in its context. -/
def ReadSymbol.contextLoc (mds : List Metadata) (aliases : List Alias) (sym : ReadSymbol) :
    Option String × String :=
  (sym.contextFilename mds, sym.nameIn aliases)

section Loop

variable (mds : List Metadata) (aliases : List Alias) {sym : ReadSymbol} {syms : List ReadSymbol}
  {defined : List (Option String × String)}

theorem definedLocs_bound_of_neg (syms : List ReadSymbol) (h : sym.isStaticDef = false) :
    definedLocs ((sym :: syms).map (ReadSymbol.bound mds aliases)) =
      definedLocs (syms.map (ReadSymbol.bound mds aliases)) := by
  have hbound : (sym.bound mds aliases).isStaticDef = false := by
    rw [ReadSymbol.bound]
    split <;> exact h
  rw [List.map_cons, definedLocs, List.filter_cons_of_neg (by simp [hbound]), definedLocs]

theorem definedLocs_bound_of_pos (syms : List ReadSymbol) (h : sym.isStaticDef = true) :
    definedLocs ((sym :: syms).map (ReadSymbol.bound mds aliases)) =
      sym.contextLoc mds aliases :: definedLocs (syms.map (ReadSymbol.bound mds aliases)) := by
  have hvis : sym.visibility = .visStatic := by simp_all [ReadSymbol.isStaticDef]
  have hbound : (sym.bound mds aliases).isStaticDef = true := by
    rw [ReadSymbol.bound, if_pos hvis]
    exact h
  rw [List.map_cons, definedLocs, List.filter_cons_of_pos hbound, List.map_cons, definedLocs]
  congr 1
  rw [ReadSymbol.bound, if_pos hvis]
  rfl

/-- Taking the alias of a static symbol out of the table does not change the
others. -/
theorem map_bound_filter (hsyms : SymbolsApart (sym :: syms)) (hvis : sym.visibility = .visStatic) :
    syms.map (ReadSymbol.bound mds (aliases.filter fun md => !decide (md.Matches sym))) =
      syms.map (ReadSymbol.bound mds aliases) := by
  refine List.map_congr_left fun s hs => ?_
  rw [ReadSymbol.bound, ReadSymbol.bound]
  split
  · next hs' =>
      rw [ReadSymbol.nameIn_filter ((List.pairwise_cons.mp hsyms.apart).1 s hs hvis hs')]
  · rfl

/-- The aliases that a symbol leaves are used by the rest exactly when all are
used. -/
theorem used_filter_iff (hvis : sym.visibility = .visStatic) :
    (∀ md ∈ aliases.filter (fun md => !decide (md.Matches sym)), md.Used syms) ↔
      ∀ md ∈ aliases, md.Used (sym :: syms) := by
  constructor
  · intro h md hmd
    by_cases hmatch : md.Matches sym
    · exact ⟨sym, List.mem_cons_self, hvis, hmatch⟩
    · obtain ⟨s, hs, hrest⟩ := h md (List.mem_filter.mpr ⟨hmd, by simpa using hmatch⟩)
      exact ⟨s, List.mem_cons_of_mem _ hs, hrest⟩
  · intro h md hmd
    rw [List.mem_filter] at hmd
    have hmatch : ¬ md.Matches sym := by simpa using hmd.2
    obtain ⟨s, hs, hs', hsmatch⟩ := h md hmd.1
    rcases List.mem_cons.mp hs with rfl | hs
    · exact absurd hsmatch hmatch
    · exact ⟨s, hs, hs', hsmatch⟩

/-- A symbol that is not static is passed over. -/
theorem scopesOk_cons_of_ne (hvis : sym.visibility ≠ .visStatic) :
    ScopesOk mds (sym :: syms) aliases defined ↔ ScopesOk mds syms aliases defined := by
  have hlocs := definedLocs_bound_of_neg mds aliases syms
    (show sym.isStaticDef = false by simp [ReadSymbol.isStaticDef, hvis])
  have hused : ∀ md : Alias, md.Used (sym :: syms) ↔ md.Used syms := by
    intro md
    simp [Alias.Used, hvis]
  constructor
  · rintro ⟨hnested, hkeys, hall⟩
    rw [hlocs] at hkeys
    exact ⟨(List.forall_mem_cons.mp hnested).2, hkeys, fun md hmd => (hused md).mp (hall md hmd)⟩
  · rintro ⟨hnested, hkeys, hall⟩
    rw [← hlocs] at hkeys
    exact ⟨List.forall_mem_cons.mpr ⟨fun h => hvis h.1, hnested⟩, hkeys,
      fun md hmd => (hused md).mpr (hall md hmd)⟩

/-- A static reference is not nested with a file of its own. -/
theorem scopesOk_cons_ref (hsyms : SymbolsApart (sym :: syms)) (hvis : sym.visibility = .visStatic)
    (hkind : sym.kind ≠ .symDef) :
    ScopesOk mds (sym :: syms) aliases defined ↔ ¬ sym.NestedNamesFile ∧
      ScopesOk mds syms (aliases.filter fun md => !decide (md.Matches sym)) defined := by
  have hlocs := definedLocs_bound_of_neg mds aliases syms
    (show sym.isStaticDef = false by simp [ReadSymbol.isStaticDef, hkind])
  rw [← map_bound_filter mds aliases hsyms hvis] at hlocs
  constructor
  · rintro ⟨hnested, hkeys, hall⟩
    rw [hlocs] at hkeys
    obtain ⟨hsym, hnested⟩ := List.forall_mem_cons.mp hnested
    exact ⟨hsym, hnested, hkeys, (used_filter_iff aliases hvis).mpr hall⟩
  · rintro ⟨hsym, hnested, hkeys, hall⟩
    rw [← hlocs] at hkeys
    exact ⟨List.forall_mem_cons.mpr ⟨hsym, hnested⟩, hkeys, (used_filter_iff aliases hvis).mp hall⟩

/-- The key of a static definition is new. -/
theorem scopesOk_cons_def (hsyms : SymbolsApart (sym :: syms)) (hvis : sym.visibility = .visStatic)
    (hkind : sym.kind = .symDef) :
    ScopesOk mds (sym :: syms) aliases defined ↔ sym.contextLoc mds aliases ∉ defined ∧
      ScopesOk mds syms (aliases.filter fun md => !decide (md.Matches sym))
        (sym.contextLoc mds aliases :: defined) := by
  have hlocs := definedLocs_bound_of_pos mds aliases syms
    (show sym.isStaticDef = true by simp [ReadSymbol.isStaticDef, hvis, hkind])
  rw [← map_bound_filter mds aliases hsyms hvis] at hlocs
  constructor
  · rintro ⟨hnested, hkeys, hall⟩
    rw [hlocs, newKeys_cons_iff] at hkeys
    exact ⟨hkeys.1, (List.forall_mem_cons.mp hnested).2, hkeys.2,
      (used_filter_iff aliases hvis).mpr hall⟩
  · rintro ⟨hkey, hnested, hkeys, hall⟩
    refine ⟨List.forall_mem_cons.mpr ⟨fun h => ?_, hnested⟩, ?_,
      (used_filter_iff aliases hvis).mp hall⟩
    · rw [ReadSymbol.NestedNamesFile, hkind] at h
      cases h.2.1
    · rw [hlocs, newKeys_cons_iff]
      exact ⟨hkey, hkeys⟩

/-- A step of a loop that puts its result in front of the rest. -/
theorem bind_cons_eq_ok_iff {α : Type} {x : Except Raised (List α)} {P : Prop} {rest l : List α}
    {a : α} (h : ∀ l', x = .ok l' ↔ P ∧ l' = rest) :
    (do let l' ← x; pure (a :: l')) = .ok l ↔ P ∧ l = a :: rest := by
  rw [bind_eq_ok_iff]
  constructor
  · rintro ⟨l', hx, hret⟩
    cases hret
    obtain ⟨hP, rfl⟩ := (h l').mp hx
    exact ⟨hP, rfl⟩
  · rintro ⟨hP, rfl⟩
    exact ⟨rest, (h rest).mpr ⟨hP, rfl⟩, rfl⟩

/-- The body of the loop at a static symbol, before the rest of the symbols. -/
theorem resolveFileScopes_static {syms' : List ReadSymbol}
    (hmds : (mds.map Metadata.place).Nodup) (hsyms : SymbolsApart (sym :: syms))
    (haliases : (aliases.map Alias.key).Nodup) (hvis : sym.visibility = .visStatic)
    (hrest : ∀ defined syms', resolveFileScopes mds syms
        (aliases.filter fun md => !decide (md.Matches sym)) defined = .ok syms' ↔
      ScopesOk mds syms (aliases.filter fun md => !decide (md.Matches sym)) defined ∧
        syms' = syms.map (ReadSymbol.bound mds aliases)) :
    resolveFileScopes mds (sym :: syms) aliases defined = .ok syms' ↔
      ScopesOk mds (sym :: syms) aliases defined ∧
        syms' = sym.bound mds aliases :: syms.map (ReadSymbol.bound mds aliases) := by
  have hloc := hsyms.placed sym List.mem_cons_self (.inl hvis)
  have hbound : sym.bound mds aliases = { sym with
      targetName := sym.nameIn aliases, targetFilename := sym.contextFilename mds } :=
    if_pos hvis
  rw [resolveFileScopes, if_neg (not_not_intro hvis), popAlias_eq hloc haliases, hbound]
  dsimp only
  by_cases hnested : sym.kind = .symRef ∧ sym.parent.isSome = true ∧ sym.namesFile = true
  · rw [if_pos hnested]
    constructor
    · intro h
      cases h
    · rintro ⟨hok, _⟩
      exact absurd ⟨hvis, hnested⟩ (hok.nested sym List.mem_cons_self)
  · have hsym : ¬ sym.NestedNamesFile := fun h => hnested h.2
    have hstep := fun defined => @bind_cons_eq_ok_iff _ _ _ _ syms' ({ sym with
      targetName := sym.nameIn aliases, targetFilename := sym.contextFilename mds })
      (hrest defined)
    rw [if_neg hnested, sym.scopeFilename_eq hmds]
    show (if sym.kind ≠ .symDef then _ else if sym.contextLoc mds aliases ∈ defined then _
      else _) = _ ↔ _
    by_cases hkind : sym.kind = .symDef
    · rw [if_neg (not_not_intro hkind), scopesOk_cons_def mds aliases hsyms hvis hkind]
      by_cases hkey : sym.contextLoc mds aliases ∈ defined
      · rw [if_pos hkey]
        constructor
        · intro h
          cases h
        · rintro ⟨⟨hnot, _⟩, _⟩
          exact absurd hkey hnot
      · rw [if_neg hkey]
        refine (hstep (sym.contextLoc mds aliases :: defined)).trans ?_
        simp [hkey]
    · rw [if_pos hkind, scopesOk_cons_ref mds aliases hsyms hvis hkind]
      refine (hstep defined).trans ?_
      simp [hsym]

/-- The loop goes through exactly when nothing is in its way, and gives every
symbol its context. -/
theorem resolveFileScopes_eq_ok_iff {syms' : List ReadSymbol}
    (hmds : (mds.map Metadata.place).Nodup) (hsyms : SymbolsApart syms)
    (haliases : (aliases.map Alias.key).Nodup) :
    resolveFileScopes mds syms aliases defined = .ok syms' ↔
      ScopesOk mds syms aliases defined ∧ syms' = syms.map (ReadSymbol.bound mds aliases) := by
  induction syms generalizing syms' aliases defined with
  | nil =>
      cases aliases with
      | nil =>
          constructor
          · intro h
            cases h
            exact ⟨⟨by simp, ⟨.nil, by simp [definedLocs]⟩, by simp⟩, rfl⟩
          · rintro ⟨_, rfl⟩
            rfl
      | cons md aliases =>
          constructor
          · intro h
            cases h
          · rintro ⟨hok, _⟩
            obtain ⟨sym, hsym, _⟩ := hok.used md List.mem_cons_self
            cases hsym
  | cons sym syms induction =>
      rw [List.map_cons]
      by_cases hvis : sym.visibility = .visStatic
      · have hfilter : ((aliases.filter fun md => !decide (md.Matches sym)).map Alias.key).Nodup :=
          haliases.sublist (List.filter_sublist.map _)
        have hrest := fun defined syms' => @induction
          (aliases.filter fun md => !decide (md.Matches sym)) defined syms' hsyms.of_cons hfilter
        rw [map_bound_filter mds aliases hsyms hvis] at hrest
        exact resolveFileScopes_static mds aliases hmds hsyms haliases hvis hrest
      · have hbound : sym.bound mds aliases = sym := if_neg hvis
        rw [resolveFileScopes, if_pos hvis, scopesOk_cons_of_ne mds aliases hvis, hbound]
        exact bind_cons_eq_ok_iff fun rest => induction aliases hsyms.of_cons haliases

end Loop

/-! ## The whole -/

/-- The aliases among the metadata. -/
def aliasesOf (mds : List Metadata) : List Alias := mds.filterMap Metadata.aliasMd

theorem processMeta_eq_ok_iff {mds : List Metadata} {syms syms' : List ReadSymbol}
    (hsyms : SymbolsApart syms) :
    processMeta mds syms = .ok syms' ↔
      LinesApart mds syms ∧ ((aliasesOf mds).map Alias.key).Nodup ∧
        ScopesOk mds syms (aliasesOf mds) [] ∧
        syms' = syms.map (ReadSymbol.bound mds (aliasesOf mds)) := by
  have hempty : (([] : List Alias).map Alias.key).Nodup := List.nodup_nil
  rw [processMeta, bind_eq_ok_iff]
  constructor
  · rintro ⟨_, hlines, h⟩
    have hapart := verifyLines_eq_ok_iff.mp hlines
    obtain ⟨aliases, haliases, hloop⟩ := bind_eq_ok_iff.mp h
    obtain ⟨hnodup, rfl⟩ := (collectAliases_eq_ok_iff hempty).mp haliases
    rw [List.nil_append] at hnodup hloop
    obtain ⟨hok, rfl⟩ := (resolveFileScopes_eq_ok_iff mds _ hapart.1 hsyms hnodup).mp hloop
    exact ⟨hapart, hnodup, hok, rfl⟩
  · rintro ⟨hapart, hnodup, hok, rfl⟩
    refine ⟨(), verifyLines_eq_ok_iff.mpr hapart, bind_eq_ok_iff.mpr ⟨aliasesOf mds, ?_, ?_⟩⟩
    · exact (collectAliases_eq_ok_iff hempty).mpr ⟨hnodup, rfl⟩
    · exact (resolveFileScopes_eq_ok_iff mds _ hapart.1 hsyms hnodup).mpr ⟨hok, rfl⟩

/-- The reasons for which `process_meta` raises. -/
inductive MetaConflict (mds : List Metadata) (syms : List ReadSymbol) : Prop where
  | twoAliases : ¬ ((aliasesOf mds).map Alias.key).Nodup → MetaConflict mds syms
  | nestedFile : (∃ sym ∈ syms, sym.NestedNamesFile) → MetaConflict mds syms
  | twoDefinitions :
      ¬ (definedLocs (syms.map (ReadSymbol.bound mds (aliasesOf mds)))).Nodup →
      MetaConflict mds syms
  | unusedAlias : (∃ md ∈ aliasesOf mds, ¬ md.Used syms) → MetaConflict mds syms
  | twoOnLine : ¬ (mds.map Metadata.place).Nodup → MetaConflict mds syms
  | defOnLine : (∃ md ∈ mds, ∃ sym ∈ syms, sym.defPlace = some md.place) → MetaConflict mds syms

theorem not_metaConflict_iff {mds : List Metadata} {syms : List ReadSymbol} :
    ¬ MetaConflict mds syms ↔ LinesApart mds syms ∧ ((aliasesOf mds).map Alias.key).Nodup ∧
      ScopesOk mds syms (aliasesOf mds) [] := by
  constructor
  · intro h
    refine ⟨⟨?_, ?_⟩, ?_, ⟨?_, ⟨?_, by simp⟩, ?_⟩⟩
    · exact not_not.mp fun hdup => h (.twoOnLine hdup)
    · exact fun md hmd sym hsym hplace => h (.defOnLine ⟨md, hmd, sym, hsym, hplace⟩)
    · exact not_not.mp fun hdup => h (.twoAliases hdup)
    · exact fun sym hsym hnested => h (.nestedFile ⟨sym, hsym, hnested⟩)
    · exact not_not.mp fun hdup => h (.twoDefinitions hdup)
    · exact fun md hmd => not_not.mp fun hunused => h (.unusedAlias ⟨md, hmd, hunused⟩)
  · rintro ⟨hlines, haliases, hok⟩ hconflict
    cases hconflict with
    | twoAliases h => exact h haliases
    | nestedFile h =>
        obtain ⟨sym, hsym, hnested⟩ := h
        exact hok.nested sym hsym hnested
    | twoDefinitions h => exact h hok.keys.1
    | unusedAlias h =>
        obtain ⟨md, hmd, hunused⟩ := h
        exact hunused (hok.used md hmd)
    | twoOnLine h => exact h hlines.1
    | defOnLine h =>
        obtain ⟨md, hmd, sym, hsym, hplace⟩ := h
        exact hlines.2 md hmd sym hsym hplace

/-- If `process_meta` returns, every static symbol has the target file and the
target name of its context, and it raises exactly when there is a conflict. -/
theorem processMeta_context {mds : List Metadata} {syms : List ReadSymbol}
    (hsyms : SymbolsApart syms) :
    (∀ syms', processMeta mds syms = .ok syms' →
      syms' = syms.map (ReadSymbol.bound mds (aliasesOf mds))) ∧
      ((∃ e, processMeta mds syms = .error e) ↔ MetaConflict mds syms) := by
  refine ⟨fun syms' h => ((processMeta_eq_ok_iff hsyms).mp h).2.2.2, ?_⟩
  rw [← not_iff_not, not_metaConflict_iff]
  constructor
  · intro h
    cases hmeta : processMeta mds syms with
    | error e => exact absurd ⟨e, hmeta⟩ h
    | ok syms' =>
        obtain ⟨hlines, haliases, hok, _⟩ := (processMeta_eq_ok_iff hsyms).mp hmeta
        exact ⟨hlines, haliases, hok⟩
  · rintro ⟨hlines, haliases, hok⟩ ⟨e, he⟩
    have hmeta := (processMeta_eq_ok_iff hsyms).mpr ⟨hlines, haliases, hok, rfl⟩
    rw [he] at hmeta
    cases hmeta

/-- A static function at a line of `a.c`. -/
def staticAt (name : String) (line : Nat) (targetName : String) (targetFilename : Option String) :
    ReadSymbol :=
  ⟨.symDef, .visStatic, name, some ("a.c", line), targetName, targetFilename, none, 0x2000, 1⟩

/-- Two scopes in one file, and an alias for a function of the second. -/
theorem two_scopes_context :
    [staticAt "work" 3 "work" none, staticAt "fix" 7 "fix" none].map (ReadSymbol.bound
        [⟨"a.c", 5, .tagFile (some "rest.c")⟩, ⟨"a.c", 8, .tagAlias "fix" "old"⟩,
          ⟨"a.c", 1, .tagFile (some "util.c")⟩] [⟨"a.c", 8, "fix", "old"⟩]) =
      [staticAt "work" 3 "work" (some "util.c"), staticAt "fix" 7 "old" (some "rest.c")] := by
  have hsyms : SymbolsApart [staticAt "work" 3 "work" none, staticAt "fix" 7 "fix" none] :=
    ⟨by simp [staticAt], by simp [staticAt, ReadSymbol.key]⟩
  have hmeta : processMeta [⟨"a.c", 5, .tagFile (some "rest.c")⟩, ⟨"a.c", 8, .tagAlias "fix" "old"⟩,
      ⟨"a.c", 1, .tagFile (some "util.c")⟩]
      [staticAt "work" 3 "work" none, staticAt "fix" 7 "fix" none] =
      .ok [staticAt "work" 3 "work" (some "util.c"), staticAt "fix" 7 "old" (some "rest.c")] := rfl
  exact ((processMeta_context hsyms).1 _ hmeta).symm

/-- A reference that names an empty file. -/
def emptyFileRef : ReadSymbol :=
  ⟨.symRef, .visStatic, "count", some ("a.c", 3), "count", some "", none, 0, 1⟩

/-- Without a `VZP_FILE`, the target file of the reference stays the empty name
and does not become `None`. -/
theorem emptyFileRef_stays :
    SymbolsApart [emptyFileRef] ∧ emptyFileRef.namesFile = false ∧
      scopesBefore [⟨"a.c", 3, .tagSymbol "count" 100 (some "")⟩] "a.c" 3 = [] ∧
      processMeta [⟨"a.c", 3, .tagSymbol "count" 100 (some "")⟩] [emptyFileRef] =
        .ok [emptyFileRef] ∧
      emptyFileRef.targetFilename = some "" ∧ emptyFileRef.targetFilename ≠ none := by
  refine ⟨⟨by simp [emptyFileRef], by simp⟩, rfl, rfl, rfl, rfl, ?_⟩
  simp [emptyFileRef]

end Nsb
