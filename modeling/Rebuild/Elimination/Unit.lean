import Rebuild.Json.Decode
import Rebuild.Json.Printer
import Std.Data.TreeMap
import Std.Data.TreeSet

/-!
# Compile units

What can be compiled on its own: a unit exports symbols, imports symbols from other units, and may have
generated features.  `CompileUnit.shake` narrows the features of one unit without looking at the
others.
-/

namespace Rebuild

/-- A set of names, in the order of strings. -/
abbrev Names := Std.TreeSet String compare

/-- The symbols that are requested from each unit. -/
abbrev ImportTable := Std.TreeMap String Names compare

/-- Something that can be compiled on its own. -/
structure CompileUnit where
  id : String
  exports : Names := ∅
  imports : ImportTable := ∅
  /-- The unit is used from outside. -/
  isEntryPoint : Bool := false
  features : List String := []

/-- The features of a unit, parted. -/
structure ShakenUnit where
  id : String
  kept : List String
  removed : List String
  deriving DecidableEq, Repr

namespace Names

/-- The names as JSON. -/
def toJson (s : Names) : Json := Json.strings s.toList

/-- The names in a JSON array. -/
def ofJson? (value : Json) : Option Names :=
  (Json.list? Json.string? value).map fun names => Std.TreeSet.ofList names compare

/-- The names that are in one of the sets. -/
def union (s t : Names) : Names := s.insertMany t.toList

end Names

namespace ImportTable

/-- The table with more symbols requested from a unit. -/
def request (t : ImportTable) (unit : String) (symbols : Names) : ImportTable :=
  t.insert unit ((t.getD unit ∅).union symbols)

/-- The requests of both tables. -/
def union (s t : ImportTable) : ImportTable :=
  t.toList.foldl (fun s (unit, symbols) => s.request unit symbols) s

/-- The table as JSON. -/
def toJson (t : ImportTable) : Json := .object (t.toList.map fun (unit, s) => (unit, s.toJson))

/-- The table in a JSON object. -/
def ofJson? (value : Json) : Option ImportTable := do
  let members ← Json.members? value
  let requests ← members.mapM fun (unit, symbols) => (Names.ofJson? symbols).map (unit, ·)
  return Std.TreeMap.ofList requests compare

end ImportTable

namespace CompileUnit

/-- The unit with more exports. -/
def withExports (u : CompileUnit) (names : List String) : CompileUnit :=
  { u with exports := u.exports.insertMany names }

/-- The unit with more symbols requested from another one. -/
def importing (u : CompileUnit) (origin : String) (names : List String) : CompileUnit :=
  { u with imports := u.imports.request origin (Std.TreeSet.ofList names compare) }

/-- The unit with more features. -/
def withFeatures (u : CompileUnit) (names : List String) : CompileUnit :=
  { u with features := u.features ++ names }

/-- The features that are used and those that are not, each in their order. -/
def shake (u : CompileUnit) (used : Names) : ShakenUnit where
  id := u.id
  kept := u.features.filter used.contains
  removed := u.features.filter fun f => !used.contains f

/-- A unit as JSON. -/
def toJson (u : CompileUnit) : Json :=
  .object <|
    [("id", .string u.id), ("exports", u.exports.toJson), ("imports", u.imports.toJson),
      ("isEntryPoint", .bool u.isEntryPoint)] ++
    if u.features.isEmpty then [] else [("features", Json.strings u.features)]

/-- The unit in a JSON value. -/
def ofJson? (value : Json) : Option CompileUnit := do
  let r ← Json.recordWith? 4 ["id", "exports", "imports", "isEntryPoint", "features"] value
  return {
    id := ← Json.Record.required? r "id" Json.string?
    exports := ← Json.Record.withDefault? r "exports" Names.ofJson? ∅
    imports := ← Json.Record.withDefault? r "imports" ImportTable.ofJson? ∅
    isEntryPoint := ← Json.Record.withDefault? r "isEntryPoint" Json.bool? false
    features := ← Json.Record.withDefault? r "features" (Json.list? Json.string?) [] }

end CompileUnit
end Rebuild
