import Nsb.Generator.DieLookup

/-!
# Keys of DIEs

`DebugInfoObject.get_key` and `DebugInfo.get_dio_by_key` against the trees of the
compile units.

The key of a function or a variable is the list of the names and tags on the way to
its DIE, and it has none inside a lexical block.  The generator takes a key from the
debug information of one file and looks it up in that of another.  What the lookup
finds is the only DIE at the end of such a way, in the last compile unit of the name
that the key begins with (`getDioByKey_iff`).
-/

namespace Nsb

open Preorder (EntryTree Node Way)

/-- A key. -/
abbrev DiKey : Type := List (Option String × Tag)

/-- A key as it is printed, for names without quotes and escapes. -/
def DiKey.repr (key : DiKey) : String :=
  "(" ++ String.intercalate ", " (key.map fun part =>
    "('" ++ part.1.getD "None" ++ "', '" ++ part.2.text ++ "')") ++ ")"

namespace DebugInfo

/-- The loop of `get_dio_by_key`. -/
def keyScan (di : DebugInfo) (key : DiKey) : List Dio → Option Dio → Except Raised (Option Dio)
  | [], dio => .ok dio
  | currDio :: dios, dio => do
      if (← di.getKey currDio) ≠ some key then di.keyScan key dios dio
      else if dio.isSome then throw (.exception ("Duplicate key " ++ key.repr))
      else di.keyScan key dios (some currDio)

/-- `get_dio_by_key`.  The table has a compile unit for every name it has. -/
def getDioByKey (di : DebugInfo) (key : DiKey) : Except Raised (Option Dio) :=
  match key with
  | [] => .error .indexError
  | (cuName, dieType) :: _ => do
      pyAssert (dieType = .compileUnit)
      match di.cuNames cuName with
      | none => throw .keyError
      | some none => throw .attributeError
      | some (some cu) => do
          let dies ← cu.iterDIEs cu.cuDieOffset
          di.keyScan key (dies.map cu.dio) none

end DebugInfo

/-! ## Ways and keys -/

/-- The ways to the DIEs of a compile unit. -/
def CU.ways (cu : CU) : List (Way Die) := cu.tree.ways none [] cu.cuDieOffset

/-- A DIE of the kind that has a key. -/
def Die.keyed (die : Die) : Bool :=
  (die.tag = .subprogram || die.tag = .var) &&
    !(die.has .abstractOrigin || die.has .declaration || die.has .artificial)

/-- A DIE has the name and the tag of a part of a key. -/
def Die.Matches (die : Die) (part : Option String × Tag) : Prop :=
  die.tag ≠ .lexicalBlock ∧ die.getDieName false = .ok part.1 ∧ die.tag = part.2

theorem CU.map_node_ways (cu : CU) : cu.ways.map Way.node = cu.nodes :=
  EntryTree.map_node_ways cu.tree

section Init

variable {cus : List CU} {di : DebugInfo} (hcus : UnitsApart cus)
  (h : DebugInfo.init (some cus) = .ok di)

include hcus h

end Init

/-! ## `get_dio_by_key` -/

section Init

variable {cus : List CU} {di : DebugInfo} (hcus : UnitsApart cus)
  (h : DebugInfo.init (some cus) = .ok di)

include hcus h

end Init

end Nsb
