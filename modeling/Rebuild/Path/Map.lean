import Rebuild.Path.Basic
import Std.Data.TreeMap
import Std.Data.TreeSet

/-!
# Maps and sets of paths

Tables whose keys are paths, in the order of paths.  Two spellings of one path are one key, and the
spelling under which a key first came in stays: `PathMap.put` changes the value only.
-/

namespace Rebuild

/-- A table with paths as keys. -/
abbrev PathMap (β : Type) := Std.TreeMap Path β compare

/-- A set of paths. -/
abbrev PathSet := Std.TreeSet Path compare

namespace PathMap

variable {β : Type}

/-- The value at a path, under the spelling that the table has. -/
def put (m : PathMap β) (p : Path) (value : β) : PathMap β :=
  m.insert (m.getKeyD p p) value

/-- The stored spelling of a key compares equal to the key. -/
theorem compare_getKeyD (m : PathMap β) (p : Path) : compare (m.getKeyD p p) p = .eq := by
  by_cases h : p ∈ m
  · have hkey := Std.TreeMap.compare_getKey_self h
    rwa [Std.TreeMap.getKey_eq_getKeyD] at hkey
  · rw [Std.TreeMap.getKeyD_eq_fallback h]
    exact Std.ReflCmp.compare_self

/-- A table answers for a path as it does for any spelling of it. -/
theorem getElem?_put (m : PathMap β) (p q : Path) (value : β) :
    (m.put p value)[q]? = if compare p q = .eq then some value else m[q]? := by
  have h := compare_getKeyD m p
  rw [put, Std.TreeMap.getElem?_insert, Std.TransCmp.congr_left h]

/-- The table with a value at the path, if it had none. -/
def ensure (m : PathMap β) (p : Path) (value : β) : PathMap β :=
  m.insertIfNew p value

/-- The table with the value at a path changed, if there is one. -/
def adjust (m : PathMap β) (p : Path) (f : β → β) : PathMap β :=
  match m[p]? with
  | some value => m.put p (f value)
  | none => m

end PathMap

namespace PathSet

/-- The set of these paths; of two spellings of one path the later stays. -/
def ofPaths (paths : List Path) : PathSet :=
  paths.foldr (fun p s => s.insert p) ∅

/-- The set of these paths; of two spellings of one path the earlier stays. -/
def collect (paths : List Path) : PathSet :=
  paths.foldl (fun s p => s.insert p) ∅

end PathSet
end Rebuild
