import Mathlib.Data.List.Forall2
import Nsb.Generator.DieLookup
import Nsb.Generator.Resolve

/-!
# Where the symbols of a patch come from

What `read_patch` of `patch_symbol.py` returns, against the symbol table, the
metadata and the trees of the debug information.  Every symbol has an origin: a
definition of the symbol table with the DIE that it was matched with, a
declaration of an undefined name with the DIE of its metadata, or an undefined
name that no metadata declare.

`Walk.Effect` says what the body of the walk can do, and `Walk.Accounts` is what
has become of the entries and the names between two iterations.
-/

namespace Nsb

open Preorder (Entry EntryTree Node Spot)

/-! ## The symbol table -/

/-- An entry that is neither weak nor ignored. -/
def SymtabEntry.isKept (s : SymtabEntry) : Bool := s.bind ≠ .stbWeak && !isIgnoredSym s.name

/-- An entry whose name is left undefined. -/
def SymtabEntry.isUndefined (s : SymtabEntry) : Bool := s.stShndx = .shnUndef && s.isKept

/-- An entry that has to be found in the debug information. -/
def SymtabEntry.isDefined (s : SymtabEntry) : Bool :=
  s.isKept && s.stShndx ≠ .shnUndef && s.stSize ≠ 0 && s.isObjectOrFunc

/-- An entry in the section of the metadata. -/
def SymtabEntry.isMeta (metaSecIdx : Option Nat) (s : SymtabEntry) : Bool :=
  metaSecIdx.any fun i => s.stShndx = .index i

/-- `meta_sec_idx`. -/
def PatchElf.metaSecIdx (p : PatchElf) : Option Nat := p.sections.zipIdx.lookup "vzp_meta"

/-- The entries that have to be found, with their indices.  The first entry of
the table is no symbol. -/
def definedEntries (st : List SymtabEntry) : List (SymtabEntry × Nat) :=
  (st.zipIdx.drop 1).filter fun e => e.1.isDefined

/-- The names that are left undefined. -/
def undefinedNames (st : List SymtabEntry) : List String :=
  ((st.zipIdx.drop 1).filter fun e => e.1.isUndefined).map fun e => e.1.name

/-- What one entry of the symbol table adds. -/
theorem readSymtab_cons {s : SymtabEntry} {idx : Nat} {entries : List (SymtabEntry × Nat)}
    {read read' : SymtabRead} (h : readSymtab ((s, idx) :: entries) read = .ok read') :
    ∃ read₁, readSymtab entries read₁ = .ok read' ∧
      read₁.undefSymNames = read.undefSymNames ++ (if s.isUndefined then [s.name] else []) ∧
      read₁.defSyms = read.defSyms ++ (if s.isDefined then [(s, idx)] else []) ∧
      (s.isUndefined = true → s.name ∉ read.undefSymNames) := by
  have hskip (hu : s.isUndefined = false) (hd : s.isDefined = false)
      (h : readSymtab entries read = .ok read') :
      ∃ read₁, readSymtab entries read₁ = .ok read' ∧
        read₁.undefSymNames = read.undefSymNames ++ (if s.isUndefined then [s.name] else []) ∧
        read₁.defSyms = read.defSyms ++ (if s.isDefined then [(s, idx)] else []) ∧
        (s.isUndefined = true → s.name ∉ read.undefSymNames) :=
    ⟨read, h, by simp [hu], by simp [hd], by simp [hu]⟩
  rw [readSymtab] at h
  split at h
  · next hweak =>
      exact hskip (by simp [SymtabEntry.isUndefined, SymtabEntry.isKept, hweak])
        (by simp [SymtabEntry.isDefined, SymtabEntry.isKept, hweak]) h
  · next hweak =>
    split at h
    · next hign =>
        exact hskip (by simp [SymtabEntry.isUndefined, SymtabEntry.isKept, hign])
          (by simp [SymtabEntry.isDefined, SymtabEntry.isKept, hign]) h
    · next hign =>
      have hkept : s.isKept = true := by simp [SymtabEntry.isKept, hweak, hign]
      split at h
      · next hundef =>
          obtain ⟨_, hassert, h⟩ := bind_eq_ok_iff.mp h
          have hnew := of_decide_eq_true (pyAssert_eq_ok_iff.mp hassert)
          exact ⟨_, h, by simp [SymtabEntry.isUndefined, hkept, hundef],
            by simp [SymtabEntry.isDefined, hundef], fun _ => hnew⟩
      · next hundef =>
        have hu : s.isUndefined = false := by simp [SymtabEntry.isUndefined, hundef]
        split at h
        · next hsize => exact hskip hu (by simp [SymtabEntry.isDefined, hsize]) h
        · next hsize =>
          split at h
          · next htype =>
              rw [Bool.not_eq_true'] at htype
              exact hskip hu (by simp [SymtabEntry.isDefined, htype]) h
          · next htype =>
              rw [Bool.not_eq_true', Bool.not_eq_false] at htype
              obtain ⟨_, _, h⟩ := bind_eq_ok_iff.mp h
              exact ⟨_, h, by simp [hu],
                by simp [SymtabEntry.isDefined, hkept, hundef, hsize, htype], by simp [hu]⟩

/-- What the loop over the symbol table collects. -/
theorem readSymtab_eq_ok {entries : List (SymtabEntry × Nat)} {read read' : SymtabRead}
    (h : readSymtab entries read = .ok read') (hnodup : read.undefSymNames.Nodup) :
    read'.undefSymNames = read.undefSymNames ++
        (entries.filter fun e => e.1.isUndefined).map (fun e => e.1.name) ∧
      read'.defSyms = read.defSyms ++ entries.filter (fun e => e.1.isDefined) ∧
      read'.undefSymNames.Nodup := by
  induction entries generalizing read with
  | nil =>
      cases h
      simp [hnodup]
  | cons e entries induction =>
      obtain ⟨s, idx⟩ := e
      obtain ⟨read₁, h, hnames, hdefs, hnew⟩ := readSymtab_cons h
      have hnodup₁ : read₁.undefSymNames.Nodup := by
        rw [hnames]
        split
        · next hu =>
            refine List.nodup_append.mpr ⟨hnodup, List.nodup_singleton _, ?_⟩
            intro a ha b hb heq
            rw [heq, List.mem_singleton.mp hb] at ha
            exact hnew hu ha
        · simpa using hnodup
      obtain ⟨hnames', hdefs', hall⟩ := induction h hnodup₁
      refine ⟨?_, ?_, hall⟩
      · rw [hnames', hnames, List.filter_cons, List.append_assoc]
        dsimp only
        split <;> rfl
      · rw [hdefs', hdefs, List.filter_cons, List.append_assoc]
        dsimp only
        split <;> rfl

/-! ## The DIEs -/

/-- A DIE with the offsets of the DIEs around it. -/
structure DieSpot where
  cu : CU
  spot : Spot Die

/-- The object of the DIE. -/
def DieSpot.dio (d : DieSpot) : Dio := d.cu.dio d.spot.node

/-- The DIEs of a compile unit in preorder. -/
def CU.dieSpots (cu : CU) : List DieSpot :=
  (cu.tree.spots [] cu.cuDieOffset).map fun spot => ⟨cu, spot⟩

theorem CU.map_dio_dieSpots (cu : CU) : cu.dieSpots.map DieSpot.dio = cu.nodes.map cu.dio := by
  have hnodes : (cu.tree.spots [] cu.cuDieOffset).map Spot.node = cu.nodes :=
    EntryTree.map_node_spots cu.tree
  rw [CU.dieSpots, List.map_map, ← hnodes, List.map_map]
  rfl

/-- What is around a DIE is around the DIE in front of it, or is that DIE. -/
def DieSpot.Follows (a b : DieSpot) : Prop := a.spot.Follows b.spot

/-- The walk goes from every DIE to one that follows it, also from one unit to
the next. -/
theorem dieSpots_follow (cus : List CU) :
    (cus.flatMap CU.dieSpots).IsChain DieSpot.Follows ∧
      ∀ d ∈ (cus.flatMap CU.dieSpots).head?, d.spot.above = [] := by
  induction cus with
  | nil => exact ⟨.nil, fun _ h => nomatch h⟩
  | cons cu cus induction =>
      obtain ⟨hchain, hhead⟩ := induction
      have hunit : cu.dieSpots.head? = some ⟨cu, ⟨cu.cuDieOffset, cu.tree.value, []⟩⟩ := by
        rw [CU.dieSpots, List.head?_map, EntryTree.head?_spots]
        rfl
      rw [List.flatMap_cons, List.isChain_append, List.head?_append, hunit]
      refine ⟨⟨?_, hchain, ?_⟩, ?_⟩
      · rw [CU.dieSpots, List.isChain_map]
        exact (EntryTree.spots_follow cu.tree).1
      · intro a _ b hb
        rw [DieSpot.Follows, Spot.Follows, hhead b hb]
        exact List.nil_prefix
      · rintro _ ⟨⟩
        rfl

/-! ## Origins -/

/-- The name and the visibility that metadata state. -/
def Metadata.declared (md : Metadata) : Option (String × Int) :=
  match md.body with
  | .tagSymbol symbol visibility _ => some (symbol, visibility)
  | _ => none

/-- Where a symbol comes from. -/
inductive Origin where
  | definition (die : DieSpot) (entry : SymtabEntry × Nat)
  | declaration (die : DieSpot) (name : String)
  | undeclared (name : String)

/-- The DIE of a symbol that is found in the debug information. -/
def Origin.die : Origin → Option DieSpot
  | .definition die _ => some die
  | .declaration die _ => some die
  | .undeclared _ => none

/-- The entry of a definition. -/
def Origin.entry : Origin → Option (SymtabEntry × Nat)
  | .definition _ entry => some entry
  | _ => none

/-- The name of a reference. -/
def Origin.undefName : Origin → Option String
  | .definition _ _ => none
  | .declaration _ name => some name
  | .undeclared name => some name

/-- The origin is a definition at an offset. -/
def Origin.defines (pos : Nat) : Origin → Bool
  | .definition die _ => die.spot.pos = pos
  | _ => false

/-- The index of the symbol that is defined at an offset. -/
def defAt (origins : List Origin) (pos : Nat) : Option Nat := origins.findIdx? (Origin.defines pos)

/-- The nearest DIE around the DIE of a symbol that has given a definition, by the index of the
symbol. -/
def Origin.parentIn (origins : List Origin) (o : Origin) : Option Nat :=
  o.die.bind fun die => die.spot.above.reverse.findSome? (defAt origins)

/-- What a symbol is apart from its place and its parent. -/
structure SymFacts where
  kind : SymKind
  visibility : Visibility
  name : String
  idx : Nat

def ReadSymbol.facts (sym : ReadSymbol) : SymFacts :=
  ⟨sym.kind, sym.visibility, sym.name, sym.idx⟩

def PatchSym.facts (sym : PatchSym) : SymFacts :=
  ⟨sym.symbol.info.kind, sym.symbol.info.visibility, sym.symbol.info.name, sym.idx⟩

/-- The symbol that an origin gives, with the metadata and the table of the
dynamic symbols. -/
def Origin.Gives (p : PatchElf) (name2idx : List (String × Nat)) (mds : List Metadata) :
    Origin → SymFacts → Prop
  | .definition die entry, sym =>
      sym.kind = .symDef ∧ sym.name = entry.1.name ∧ sym.idx = entry.2 ∧
        getVisibility entry.1 die.dio = .ok sym.visibility ∧
        die.dio.die.getDieName false = .ok (some entry.1.name) ∧
        die.dio.die.addr = some entry.1.stValue
  | .declaration die name, sym =>
      sym.kind = .symRef ∧ getDynElfSym name2idx name = .ok (sym.name, sym.idx) ∧
        ∃ md ∈ mds, p.value die.dio = .ok md ∧ ∃ code, md.declared = some (name, code) ∧
          Visibility.ofCode? code = some sym.visibility
  | .undeclared name, sym =>
      sym.kind = .symRef ∧ getDynElfSym name2idx name = .ok (sym.name, sym.idx) ∧
        sym.visibility = .visExternal ∧ ∀ md ∈ mds, ∀ code, md.declared ≠ some (name, code)

/-! ## The body of the walk -/

/-- A DIE is matched with an entry of the definitions. -/
structure Walk.Pops (w : Walk) (dio : Dio) (entry : SymtabEntry × Nat)
    (rest : List (SymtabEntry × Nat)) : Prop where
  perm : w.defSyms.Perm (entry :: rest)
  addr : dio.die.addr = some entry.1.stValue

/-- A DIE is matched with a metadata object. -/
structure Walk.ReadsMeta (env : ReadEnv) (w : Walk) (dio : Dio) (entry : SymtabEntry × Nat)
    (rest : List (SymtabEntry × Nat)) (md : Metadata) : Prop extends Pops w dio entry rest where
  isMeta : entry.1.isMeta env.metaSecIdx = true
  value : env.patch.value dio = .ok md

/-- `verify_vis` notes the visibility of a name, which is not another one than
before. -/
structure Notes (table : List (String × Int)) (name : String) (code : Int)
    (table' : List (String × Int)) : Prop where
  lookup : ∀ n, table'.lookup n = if n = name then some code else table.lookup n
  agrees : ∀ c, table.lookup name = some c → c = code

/-- What the walk can do at a DIE, after it has been put on the stack. -/
inductive Walk.Effect (env : ReadEnv) (w : Walk) (dio : Dio) : Walk → Prop where
  | skip : Effect env w dio w
  | define {entry rest vis loc} :
      w.Pops dio entry rest → entry.1.isMeta env.metaSecIdx = false →
      dio.die.getDieName false = .ok (some entry.1.name) → getVisibility entry.1 dio = .ok vis →
      Effect env w dio { w with
        defSyms := rest
        symbols := w.symbols ++ [⟨.symDef, vis, entry.1.name, some loc, entry.1.name, none,
          w.parentSym, entry.1.stValue, entry.2⟩]
        diePosMap := Function.update w.diePosMap dio.diePos (some w.symbols.length) }
  | other {entry rest md} :
      w.ReadsMeta env dio entry rest md → md.declared = none →
      Effect env w dio { w with defSyms := rest, mds := w.mds ++ [md] }
  | unused {entry rest md name code table} :
      w.ReadsMeta env dio entry rest md → md.declared = some (name, code) →
      Notes w.symRefName2vis name code table → name ∉ w.undefSymNames →
      Effect env w dio { w with
        defSyms := rest, mds := w.mds ++ [md], symRefName2vis := table }
  | declare {entry rest md name code table vis loc file dynName dynIdx} :
      w.ReadsMeta env dio entry rest md → md.declared = some (name, code) →
      Notes w.symRefName2vis name code table → name ∈ w.undefSymNames →
      getDynElfSym env.name2idx name = .ok (dynName, dynIdx) →
      Visibility.ofCode? code = some vis →
      Effect env w dio { w with
        defSyms := rest, mds := w.mds ++ [md], symRefName2vis := table
        undefSymNames := w.undefSymNames.erase name
        symbols := w.symbols ++
          [⟨.symRef, vis, dynName, some loc, dynName, file, w.parentSym, 0, dynIdx⟩] }

theorem perm_eraseP {α : Type} {p : α → Bool} {l : List α} {a : α} (h : l.find? p = some a) :
    l.Perm (a :: l.eraseP p) := by
  obtain ⟨ha, front, back, rfl, hfront⟩ := List.find?_eq_some_iff_append.mp h
  have herase : (front ++ a :: back).eraseP p = front ++ back := by
    rw [List.eraseP_append_right _ (fun b hb => by simpa using hfront b hb),
      List.eraseP_cons_of_pos ha]
  rw [herase]
  exact List.perm_middle

theorem Walk.popDef_eq_ok {w w' : Walk} {dio : Dio} {addr idx : Nat} {s : SymtabEntry}
    (h : w.popDef addr = .ok (s, idx, w')) (haddr : dio.die.addr = some addr) :
    ∃ rest, w.Pops dio (s, idx) rest ∧ w' = { w with defSyms := rest } := by
  rw [Walk.popDef] at h
  split at h
  · cases h
  · next found hfind =>
      cases h
      have hvalue := List.find?_some hfind
      rw [decide_eq_true_eq] at hvalue
      exact ⟨_, ⟨perm_eraseP hfind, by rw [haddr, hvalue]⟩, rfl⟩

/-- `verify_vis` changes the table only. -/
theorem Walk.verifyVis_eq_ok {w w' : Walk} {loc : String × Nat} {name : String} {code : Int}
    (h : w.verifyVis loc name code = .ok w') :
    ∃ table, Notes w.symRefName2vis name code table ∧ w' = { w with symRefName2vis := table } := by
  rw [Walk.verifyVis] at h
  split at h
  · next hnone =>
      cases h
      refine ⟨_, ⟨?_, ?_⟩, rfl⟩
      · intro n
        rw [List.lookup_cons]
        by_cases hn : n = name
        · simp [hn]
        · simp [hn, beq_eq_false_iff_ne.mpr hn]
      · intro c hc
        rw [hnone] at hc
        cases hc
  · next vis hvis =>
      split at h
      · cases h
      · next heq =>
        split at h
        · cases h
        · cases h
          rw [not_not] at heq
          refine ⟨_, ⟨?_, ?_⟩, rfl⟩
          · intro n
            split
            · next hn => rw [hn, hvis, heq]
            · rfl
          · intro c hc
            rw [hvis] at hc
            cases hc
            exact heq

theorem getSymbol_eq_ok {kind : SymKind} {visibility : Visibility} {parent : Option Nat}
    {name : String} {stValue idx : Nat} {loc : Option (String × Nat)} {file : Option String}
    {sym : ReadSymbol}
    (h : getSymbol kind visibility parent name stValue idx loc file = .ok sym) :
    sym = ⟨kind, visibility, name, loc, name, file, parent, stValue, idx⟩ := by
  obtain ⟨_, _, h⟩ := bind_eq_ok_iff.mp h
  obtain ⟨_, _, h⟩ := bind_eq_ok_iff.mp h
  cases h
  rfl

/-- `handle_meta` of an object that has been matched. -/
theorem Walk.handleMeta_effect {env : ReadEnv} {w w' : Walk} {dio : Dio} {loc : String × Nat}
    {md : Metadata} {entry : SymtabEntry × Nat} {rest : List (SymtabEntry × Nat)}
    (hread : w.ReadsMeta env dio entry rest md)
    (h : ({ w with defSyms := rest } : Walk).handleMeta env dio loc md = .ok w') :
    w.Effect env dio w' := by
  obtain ⟨_, _, h⟩ := bind_eq_ok_iff.mp h
  obtain ⟨_, _, h⟩ := bind_eq_ok_iff.mp h
  dsimp only at h
  have hother (hbody : md.declared = none)
      (h : ({ w with defSyms := rest, mds := w.mds ++ [md] } : Walk) = w') :
      w.Effect env dio w' := by
    subst h
    exact .other hread hbody
  cases hbody : md.body with
  | tagFile file =>
      rw [hbody] at h
      exact hother (by rw [Metadata.declared, hbody]) (Except.ok.inj h)
  | tagAlias patchSymbol targetSymbol =>
      rw [hbody] at h
      exact hother (by rw [Metadata.declared, hbody]) (Except.ok.inj h)
  | other tag =>
      rw [hbody] at h
      exact hother (by rw [Metadata.declared, hbody]) (Except.ok.inj h)
  | tagSymbol name code file =>
      have hdecl : md.declared = some (name, code) := by rw [Metadata.declared, hbody]
      rw [hbody] at h
      obtain ⟨w₁, hverify, h⟩ := bind_eq_ok_iff.mp h
      obtain ⟨table, hnotes, rfl⟩ := Walk.verifyVis_eq_ok hverify
      split at h
      · next hnot =>
          cases h
          exact .unused hread hdecl hnotes hnot
      · next hmem =>
          rw [not_not] at hmem
          obtain ⟨⟨dynName, dynIdx⟩, hdyn, h⟩ := bind_eq_ok_iff.mp h
          dsimp only at h
          split at h
          · next vis hvis =>
              obtain ⟨sym, hsym, h⟩ := bind_eq_ok_iff.mp h
              cases h
              rw [getSymbol_eq_ok hsym]
              exact .declare hread hdecl hnotes hmem hdyn hvis
          · cases h

theorem Walk.define_effect {env : ReadEnv} {w w' : Walk} {dio : Dio} {loc : String × Nat}
    {entry : SymtabEntry × Nat} {rest : List (SymtabEntry × Nat)}
    (hpop : w.Pops dio entry rest) (hmeta : entry.1.isMeta env.metaSecIdx = false)
    (hname : dio.die.getDieName false = .ok (some entry.1.name))
    (h : ({ w with defSyms := rest } : Walk).define dio loc entry.1 entry.2 = .ok w') :
    w.Effect env dio w' := by
  obtain ⟨vis, hvis, h⟩ := bind_eq_ok_iff.mp h
  obtain ⟨_, _, h⟩ := bind_eq_ok_iff.mp h
  obtain ⟨sym, hsym, h⟩ := bind_eq_ok_iff.mp h
  cases h
  rw [getSymbol_eq_ok hsym]
  exact .define hpop hmeta hname hvis

theorem Walk.matchDio_effect {env : ReadEnv} {w w' : Walk} {dio : Dio} {name : Option String}
    {addr : Nat} (hname : dio.die.getDieName false = .ok name)
    (haddr : dio.die.addr = some addr)
    (h : w.matchDio env dio name addr = .ok w') : w.Effect env dio w' := by
  obtain ⟨⟨s, idx, w₁⟩, hpop, h⟩ := bind_eq_ok_iff.mp h
  obtain ⟨rest, hpops, rfl⟩ := Walk.popDef_eq_ok hpop haddr
  dsimp only at h
  split at h
  · cases h
  · next hmangled =>
      obtain ⟨loc, _, h⟩ := bind_eq_ok_iff.mp h
      split at h
      · cases h
      · obtain ⟨cuName, _, h⟩ := bind_eq_ok_iff.mp h
        split at h
        · cases h
        · split at h
          · next hmeta =>
              obtain ⟨md, hvalue, h⟩ := bind_eq_ok_iff.mp h
              exact Walk.handleMeta_effect ⟨hpops, hmeta, hvalue⟩ h
          · next hmeta =>
              have hnot : s.isMeta env.metaSecIdx = false := by
                simpa [SymtabEntry.isMeta] using hmeta
              have hsame : some s.name = name := by
                by_contra hne
                exact hmangled ⟨by simpa using hmeta, hne⟩
              exact Walk.define_effect hpops hnot (by rw [hname, hsame]) h

/-- The body of the walk puts the DIE on the stack and has one of the effects. -/
theorem Walk.readDio_effect {env : ReadEnv} {w w' : Walk} {dio : Dio}
    (h : w.readDio env dio = .ok w') : ∃ w₁, w.enter dio = .ok w₁ ∧ w₁.Effect env dio w' := by
  obtain ⟨w₁, henter, h⟩ := bind_eq_ok_iff.mp h
  refine ⟨w₁, henter, ?_⟩
  split at h
  · cases h
    exact .skip
  · obtain ⟨name, hname, h⟩ := bind_eq_ok_iff.mp h
    split at h
    · cases h
      exact .skip
    · obtain ⟨addr, haddr, h⟩ := bind_eq_ok_iff.mp h
      split at h
      · cases h
        exact .skip
      · exact Walk.matchDio_effect hname (DebugInfo.getAddr_eq_some_iff.mp haddr) h

/-! ## What becomes of the entries and names -/

/-- What the walk has done with the definitions and the undefined names.  `objs`
are the metadata objects with their DIEs, and `origins` is where the symbols come
from. -/
structure Walk.Accounts (env : ReadEnv) (read : SymtabRead) (front : List DieSpot) (w : Walk)
    (objs : List (DieSpot × SymtabEntry × Nat)) (origins : List Origin) : Prop where
  defs : read.defSyms.Perm (w.defSyms ++ (objs.map Prod.snd ++ origins.filterMap Origin.entry))
  objects : ∀ o ∈ objs, o.1 ∈ front ∧ o.2.1.isMeta env.metaSecIdx = true ∧
    o.1.dio.die.addr = some o.2.1.stValue
  values : objs.map (fun o => env.patch.value o.1.dio) = w.mds.map .ok
  entries : ∀ e ∈ origins.filterMap Origin.entry, e.1.isMeta env.metaSecIdx = false
  names : read.undefSymNames.Perm (w.undefSymNames ++ origins.filterMap Origin.undefName)
  nodup : w.undefSymNames.Nodup
  noted : ∀ md ∈ w.mds, ∀ name code, md.declared = some (name, code) →
    w.symRefName2vis.lookup name = some code
  gives : List.Forall₂
    (fun o (sym : ReadSymbol) => o.Gives env.patch env.name2idx w.mds sym.facts) origins w.symbols
  dies : ∀ o ∈ origins, ∃ d, o.die = some d ∧ d ∈ front

/-- A symbol stays what its origin gives when more metadata are read, as long as
it is found in the debug information. -/
theorem Origin.Gives.mono {p : PatchElf} {name2idx : List (String × Nat)} {mds mds' : List Metadata}
    {o : Origin} {sym : SymFacts} (h : o.Gives p name2idx mds sym) (hdie : o.die.isSome = true)
    (hmds : mds ⊆ mds') : o.Gives p name2idx mds' sym := by
  cases o with
  | definition die entry => exact h
  | declaration die name =>
      obtain ⟨hkind, hdyn, md, hmd, hstated⟩ := h
      exact ⟨hkind, hdyn, md, hmds hmd, hstated⟩
  | undeclared name => cases hdie

/-- The symbols before and after the body of the walk: there is none more, or
one with a parent from the stack. -/
inductive Walk.Pushes (w : Walk) (origins : List Origin) (d : DieSpot) (w' : Walk) :
    List Origin → Prop where
  | keep : w'.diePosStack = w.diePosStack → w'.symbols = w.symbols →
      w'.diePosMap = w.diePosMap → Pushes w origins d w' origins
  | push {o sym} : w'.diePosStack = w.diePosStack → o.die = some d →
      w'.symbols = w.symbols ++ [sym] → sym.parent = w.parentSym →
      (∀ pos, w'.diePosMap pos =
        if o.defines pos then some w.symbols.length else w.diePosMap pos) →
      Pushes w origins d w' (origins ++ [o])

theorem perm_move {α : Type} {l rest : List α} {a : α} (h : l.Perm (a :: rest))
    (front back : List α) :
    (l ++ (front ++ back)).Perm (rest ++ (front ++ [a] ++ back)) := by
  refine (h.append_right _).trans ?_
  rw [List.cons_append, List.append_assoc front, List.singleton_append, ← List.append_assoc,
    ← List.append_assoc]
  exact List.perm_middle.symm

section Effects

variable {env : ReadEnv} {read : SymtabRead} {front : List DieSpot} {w : Walk}
  {objs : List (DieSpot × SymtabEntry × Nat)} {origins : List Origin} {d : DieSpot}
  {entry : SymtabEntry × Nat} {rest : List (SymtabEntry × Nat)} {md : Metadata}

/-- One more DIE has been seen. -/
theorem Walk.Accounts.see (h : w.Accounts env read front objs origins) (stack : List (Option Nat)) :
    ({ w with diePosStack := stack } : Walk).Accounts env read (front ++ [d]) objs origins := by
  refine { h with objects := ?_, dies := ?_ }
  · intro o ho
    obtain ⟨hmem, hobj⟩ := h.objects o ho
    exact ⟨List.mem_append_left _ hmem, hobj⟩
  · intro o ho
    obtain ⟨e, he, hmem⟩ := h.dies o ho
    exact ⟨e, he, List.mem_append_left _ hmem⟩

theorem Walk.Accounts.gives_mono (h : w.Accounts env read front objs origins) (md : Metadata) :
    List.Forall₂ (fun o (sym : ReadSymbol) =>
      o.Gives env.patch env.name2idx (w.mds ++ [md]) sym.facts) origins w.symbols := by
  have hdies : ∀ o ∈ origins, o.die.isSome = true := by
    intro o ho
    obtain ⟨e, he, _⟩ := h.dies o ho
    rw [he]
    rfl
  refine ((List.forall₂_and_left _ _).mpr ⟨hdies, h.gives⟩).imp ?_
  rintro o sym ⟨hdie, hgives⟩
  exact hgives.mono hdie (List.subset_append_left _ _)

/-- A metadata object is read, and what it declares is noted. -/
theorem Walk.Accounts.readMeta (h : w.Accounts env read front objs origins) (hd : d ∈ front)
    (hread : w.ReadsMeta env d.dio entry rest md) {table : List (String × Int)}
    (htable : ∀ name code, w.symRefName2vis.lookup name = some code → table.lookup name = some code)
    (hnoted : ∀ name code, md.declared = some (name, code) → table.lookup name = some code) :
    ({ w with defSyms := rest, mds := w.mds ++ [md], symRefName2vis := table } : Walk).Accounts
      env read front (objs ++ [(d, entry)]) origins := by
  refine { h with defs := ?_, objects := ?_, values := ?_, noted := ?_, gives := h.gives_mono md }
  · rw [List.map_append]
    exact h.defs.trans (perm_move hread.perm _ _)
  · rw [List.forall_mem_append, List.forall_mem_singleton]
    exact ⟨h.objects, hd, hread.isMeta, hread.addr⟩
  · rw [List.map_append, List.map_append, h.values, List.map_singleton, hread.value]
    rfl
  · rw [List.forall_mem_append, List.forall_mem_singleton]
    refine ⟨?_, hnoted⟩
    intro md' hmd' name code hdecl
    exact htable name code (h.noted md' hmd' name code hdecl)

/-- A name that was left undefined is declared. -/
theorem Walk.Accounts.declare (h : w.Accounts env read front objs origins) (hd : d ∈ front)
    {name : String} {code : Int} {sym : ReadSymbol}
    (hmem : name ∈ w.undefSymNames) (hmd : md ∈ w.mds) (hvalue : env.patch.value d.dio = .ok md)
    (hdecl : md.declared = some (name, code)) (hkind : sym.kind = .symRef)
    (hdyn : getDynElfSym env.name2idx name = .ok (sym.name, sym.idx))
    (hvis : Visibility.ofCode? code = some sym.visibility) :
    ({ w with undefSymNames := w.undefSymNames.erase name, symbols := w.symbols ++ [sym] } :
      Walk).Accounts env read front objs (origins ++ [.declaration d name]) := by
  have hentries : (origins ++ [Origin.declaration d name]).filterMap Origin.entry =
      origins.filterMap Origin.entry := by
    rw [List.filterMap_append]
    exact List.append_nil _
  have hnames : (origins ++ [Origin.declaration d name]).filterMap Origin.undefName =
      origins.filterMap Origin.undefName ++ [name] := List.filterMap_append
  refine { h with
    defs := ?_, entries := ?_, names := ?_, nodup := h.nodup.erase _, gives := ?_, dies := ?_ }
  · rw [hentries]
    exact h.defs
  · rw [hentries]
    exact h.entries
  · have hmove := perm_move (List.perm_cons_erase hmem) (origins.filterMap Origin.undefName) []
    rw [List.append_nil, List.append_nil] at hmove
    rw [hnames]
    exact h.names.trans hmove
  · exact List.rel_append h.gives
      (.cons ⟨hkind, hdyn, md, hmd, hvalue, code, hdecl, hvis⟩ .nil)
  · rw [List.forall_mem_append, List.forall_mem_singleton]
    exact ⟨h.dies, d, rfl, hd⟩

/-- An entry is defined. -/
theorem Walk.Accounts.define (h : w.Accounts env read front objs origins) (hd : d ∈ front)
    (hpop : w.Pops d.dio entry rest) (hmeta : entry.1.isMeta env.metaSecIdx = false)
    {sym : ReadSymbol}
    (hgives : (Origin.definition d entry).Gives env.patch env.name2idx w.mds sym.facts)
    (map : Nat → Option Nat) :
    ({ w with defSyms := rest, symbols := w.symbols ++ [sym], diePosMap := map } : Walk).Accounts
      env read front objs (origins ++ [.definition d entry]) := by
  have hentries : (origins ++ [Origin.definition d entry]).filterMap Origin.entry =
      origins.filterMap Origin.entry ++ [entry] := List.filterMap_append
  have hnames : (origins ++ [Origin.definition d entry]).filterMap Origin.undefName =
      origins.filterMap Origin.undefName := by
    rw [List.filterMap_append]
    exact List.append_nil _
  refine { h with defs := ?_, entries := ?_, names := ?_, gives := ?_, dies := ?_ }
  · have hmove := perm_move hpop.perm (objs.map Prod.snd ++ origins.filterMap Origin.entry) []
    rw [List.append_nil, List.append_nil, List.append_assoc] at hmove
    rw [hentries]
    exact h.defs.trans hmove
  · rw [hentries, List.forall_mem_append, List.forall_mem_singleton]
    exact ⟨h.entries, hmeta⟩
  · rw [hnames]
    exact h.names
  · exact List.rel_append h.gives (.cons hgives .nil)
  · rw [List.forall_mem_append, List.forall_mem_singleton]
    exact ⟨h.dies, d, rfl, hd⟩

/-- What is noted already stays noted. -/
theorem Notes.keeps {table table' : List (String × Int)} {name : String} {code : Int}
    (h : Notes table name code table') (n : String) (c : Int) (hlookup : table.lookup n = some c) :
    table'.lookup n = some c := by
  rw [h.lookup]
  split
  · next hn =>
      subst hn
      rw [h.agrees c hlookup]
  · exact hlookup

theorem Notes.self {table table' : List (String × Int)} {name : String} {code : Int}
    (h : Notes table name code table') : table'.lookup name = some code := by
  rw [h.lookup, if_pos rfl]

/-- Every effect keeps the accounts. -/
theorem Walk.Accounts.effect {w' : Walk} (h : w.Accounts env read front objs origins)
    (hd : d ∈ front) (heff : w.Effect env d.dio w') :
    ∃ objs' origins', w'.Accounts env read front objs' origins' ∧
      w.Pushes origins d w' origins' := by
  have hnoted {md : Metadata} {name : String} {code : Int} {table : List (String × Int)}
      (hdecl : md.declared = some (name, code)) (hself : table.lookup name = some code) :
      ∀ n c, md.declared = some (n, c) → table.lookup n = some c := by
    intro n c hnc
    rw [hdecl] at hnc
    cases hnc
    exact hself
  cases heff with
  | skip => exact ⟨objs, origins, h, .keep rfl rfl rfl⟩
  | define hpop hmeta hname hvis =>
      refine ⟨objs, _, h.define hd hpop hmeta ?_ _, .push rfl rfl rfl rfl ?_⟩
      · exact ⟨rfl, rfl, rfl, hvis, hname, hpop.addr⟩
      · intro pos
        dsimp only
        rw [Function.update_apply]
        refine if_congr ?_ rfl rfl
        rw [Origin.defines, decide_eq_true_eq]
        exact eq_comm
  | other hread hnone =>
      refine ⟨_, origins, h.readMeta hd hread (fun _ _ hlookup => hlookup) ?_, .keep rfl rfl rfl⟩
      intro name code hdecl
      rw [hnone] at hdecl
      cases hdecl
  | unused hread hdecl hnotes hnot =>
      exact ⟨_, origins, h.readMeta hd hread hnotes.keeps (hnoted hdecl hnotes.self),
        .keep rfl rfl rfl⟩
  | declare hread hdecl hnotes hmem hdyn hvis =>
      have hmeta := h.readMeta hd hread hnotes.keeps (hnoted hdecl hnotes.self)
      refine ⟨_, _, hmeta.declare hd hmem (List.mem_append_right _ (List.mem_singleton_self _))
        hread.value hdecl rfl hdyn hvis, .push rfl rfl rfl rfl ?_⟩
      intro pos
      rfl

/-- What metadata declare is not left undefined. -/
def Walk.Settled (w : Walk) : Prop :=
  ∀ md ∈ w.mds, ∀ name code, md.declared = some (name, code) → name ∉ w.undefSymNames

theorem Walk.Settled.effect {w' : Walk} {dio : Dio} (h : w.Settled)
    (hnodup : w.undefSymNames.Nodup) (heff : w.Effect env dio w') : w'.Settled := by
  cases heff with
  | skip => exact h
  | define hpop hmeta hname hvis => exact h
  | other hread hnone =>
      refine List.forall_mem_append.mpr ⟨h, List.forall_mem_singleton.mpr ?_⟩
      intro name code hdecl
      rw [hnone] at hdecl
      cases hdecl
  | unused hread hdecl hnotes hnot =>
      refine List.forall_mem_append.mpr ⟨h, List.forall_mem_singleton.mpr ?_⟩
      intro name code hdecl'
      rw [hdecl] at hdecl'
      cases hdecl'
      exact hnot
  | declare hread hdecl hnotes hmem hdyn hvis =>
      refine List.forall_mem_append.mpr ⟨?_, List.forall_mem_singleton.mpr ?_⟩
      · intro md' hmd' name' code' hdecl' herase
        exact h md' hmd' name' code' hdecl' (List.mem_of_mem_erase herase)
      · intro name' code' hdecl'
        rw [hdecl] at hdecl'
        cases hdecl'
        exact hnodup.not_mem_erase

end Effects

end Nsb
