import Rebuild.Path.Map
import Rebuild.Json.Decode

/-!
# Paths as JSON

A path is the string that it was written as; a set is an array in order, and a table by path an
object.
-/

namespace Rebuild

namespace Path

/-- A path as JSON. -/
def toJson (p : Path) : Json := .string p.text

/-- The path that a JSON string writes. -/
def ofJson? (value : Json) : Option Path := value.string?.map Path.mk

/-- A list of paths as JSON. -/
def listToJson (paths : List Path) : Json := .array (paths.map toJson)

end Path

/-- A table by path as JSON. -/
def PathMap.toJson {β : Type} (item : β → Json) (m : PathMap β) : Json :=
  .object (m.toList.map fun (p, value) => (p.text, item value))

/-- The table by path in a JSON object; of repeated paths the last value counts. -/
def PathMap.ofJson? {β : Type} (item : Json → Option β) (value : Json) : Option (PathMap β) := do
  let members ← value.members?
  members.foldlM (fun m (name, value) => return m.put ⟨name⟩ (← item value)) ∅

/-- A set of paths as JSON. -/
def PathSet.toJson (s : PathSet) : Json := Path.listToJson s.toList

/-- The set of paths in a JSON array. -/
def PathSet.ofJson? (value : Json) : Option PathSet :=
  (Json.list? Path.ofJson? value).map PathSet.collect

end Rebuild
