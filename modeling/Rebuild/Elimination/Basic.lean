import Rebuild.Elimination.Unit
import Rebuild.Reach

/-!
# Elimination of unused symbols

Which exported symbols of a program can never be used.  The roots are the units that are used from
outside.  A unit is reachable if it is a root or a reachable unit imports from it, and its symbol is
used if the unit is a root or a reachable unit requests the symbol.

* `Program.reachable` finds the reachable units, nearest first.
* `Program.isUsed` is the rule for one symbol.
* `Program.eliminate` reports on all of them.
-/

namespace Rebuild

/-- Imports beside those that the units declare: who imports what from whom. -/
abbrev ImportMap := Std.TreeMap String ImportTable compare

/-- Units, and what is known about them beside what they say themselves. -/
structure Program where
  units : List CompileUnit
  /-- The names of units that are used from outside; unknown names mean nothing. -/
  entryPoints : List String
  extraImports : ImportMap := ∅

/-- What is used of one unit. -/
structure UnitUsage where
  reachable : Bool
  used : Names
  unused : Names

/-- The result of an elimination. -/
structure EliminationReport where
  filesProcessed : Nat
  bytesRemovedEstimate : Nat
  /-- The unused symbols as `unit:symbol`, sorted. -/
  unusedExports : List String
  /-- The used symbols as `unit:symbol`, sorted. -/
  usedExports : List String
  units : Std.TreeMap String UnitUsage compare
  /-- The imports from unknown units as `from->to`, in the order in which they were met. -/
  unresolvedImports : List String

/-- The name of a symbol in a report. -/
def qualified (unit symbol : String) : String := unit ++ ":" ++ symbol

/-- How much a symbol is taken to weigh. -/
def estimatedSize (symbol : String) : Nat := 64 + 8 * symbol.utf8ByteSize

namespace Program

/-- The unit of a name; of several it is the last. -/
def unit? (p : Program) (id : String) : Option CompileUnit :=
  p.units.reverse.find? (·.id == id)

/-- The names of the units. -/
def ids (p : Program) : List String := p.units.map (·.id)

/-- The program has a unit of this name. -/
def isKnown (p : Program) (id : String) : Bool := p.units.any (·.id == id)

/-- All imports, by the unit that imports. -/
def imports (p : Program) : ImportMap :=
  let declared := p.units.map fun u => (u.id, u.imports)
  (declared ++ p.extraImports.toList).foldl
    (fun all (unit, table) => all.insert unit ((all.getD unit ∅).union table)) ∅

/-- The units that are used from outside, in the order of their names. -/
def roots (p : Program) : List String :=
  let flagged := (p.units.filter (·.isEntryPoint)).map (·.id)
  (Std.TreeSet.ofList (flagged ++ p.entryPoints.filter p.isKnown) compare).toList

end Program

/-! ## Marking -/

/-- How far the units have been marked. -/
structure Marking where
  /-- The marked symbols of each unit. -/
  used : ImportTable := ∅
  /-- The units that were met, in the order in which they were. -/
  visited : List String := []
  /-- The imports from unknown units as `from->to`, in the order in which they were met. -/
  unresolved : List String := []
  /-- The units that were met and whose own imports are still to be followed. -/
  queue : List String := []

/-- The unit is met: the first time it is queued. -/
def Marking.visit (m : Marking) (id : String) : Marking :=
  if m.visited.contains id then m
  else { m with visited := m.visited ++ [id], queue := m.queue ++ [id] }

namespace Program

/-- All exports of a root are marked. -/
def markRoot (p : Program) (m : Marking) (root : String) : Marking :=
  match p.unit? root with
  | none => m
  | some u => Marking.visit { m with used := m.used.request root u.exports } root

/-- The import of symbols by a unit marks those that the target exports, if there is such a unit. -/
def follow (p : Program) (id : String) (m : Marking) : String × Names → Marking
  | (target, symbols) =>
    match p.unit? target with
    | none => { m with unresolved := m.unresolved ++ [id ++ "->" ++ target] }
    | some u =>
      Marking.visit
        { m with used := m.used.request target (symbols.filter u.exports.contains) } target

/-- The units that are not met yet. -/
def unvisited (p : Program) (m : Marking) : List String :=
  p.ids.filter fun id => !m.visited.contains id

/-- How many units are still to be met or to be worked off. -/
def remaining (p : Program) (m : Marking) : Nat := (p.unvisited m).length + m.queue.length

theorem mem_ids_of_unit? {p : Program} {id : String} {u : CompileUnit} (h : p.unit? id = some u) :
    id ∈ p.ids := by
  have hmem : u ∈ p.units := by simpa using List.mem_of_find?_eq_some h
  have hid : u.id = id := by simpa using List.find?_some h
  exact List.mem_map.2 ⟨u, hmem, hid⟩

/-- Meeting a unit of the program makes no more work: it is queued, but no longer to be met. -/
theorem remaining_visit_le {p : Program} {id : String} (h : id ∈ p.ids) (m : Marking) :
    p.remaining (m.visit id) ≤ p.remaining m := by
  rw [Marking.visit]
  split
  · exact Nat.le_refl _
  · rename_i hnew
    have hfewer : (p.unvisited (m.visit id)).length < (p.unvisited m).length := by
      rw [Marking.visit, if_neg hnew]
      refine Reach.length_filter_lt_of_imp (x := id) ?_ h ?_ ?_
      · intro other _ hother
        simp at hother ⊢
        exact hother.1
      · simpa using hnew
      · simp
    rw [Marking.visit, if_neg hnew] at hfewer
    simp only [remaining, List.length_append, List.length_singleton]
    omega

theorem remaining_follow_le (p : Program) (id : String) (m : Marking) (edge : String × Names) :
    p.remaining (p.follow id m edge) ≤ p.remaining m := by
  rw [follow]
  split
  · exact Nat.le_refl _
  · rename_i hunit
    exact remaining_visit_le (mem_ids_of_unit? hunit) _

theorem remaining_foldl_follow_le (p : Program) (id : String) (edges : List (String × Names))
    (m : Marking) : p.remaining (edges.foldl (p.follow id) m) ≤ p.remaining m := by
  induction edges generalizing m with
  | nil => exact Nat.le_refl _
  | cons edge edges ih => exact Nat.le_trans (ih _) (p.remaining_follow_le id m edge)

/-- The imports of the queued units are followed, one unit after the other. -/
def markQueued (p : Program) (imports : ImportMap) (m : Marking) : Marking :=
  match h : m.queue with
  | [] => m
  | id :: rest =>
    have : p.remaining ((imports.getD id ∅).toList.foldl (p.follow id) { m with queue := rest })
        < p.remaining m := by
      have hle := p.remaining_foldl_follow_le id (imports.getD id ∅).toList { m with queue := rest }
      have hlt : p.remaining { m with queue := rest } < p.remaining m := by
        simp [remaining, unvisited, h]
      exact Nat.lt_of_le_of_lt hle hlt
    markQueued p imports ((imports.getD id ∅).toList.foldl (p.follow id) { m with queue := rest })
termination_by p.remaining m

/-- What is marked when all that can be reached from the roots has been worked off. -/
def mark (p : Program) : Marking := p.markQueued p.imports (p.roots.foldl p.markRoot {})

/-! ## The report -/

/-- A unit with the names of its symbols that are used and of those that are not. -/
abbrev Swept := CompileUnit × UnitUsage

/-- What is marked of each listed unit. -/
def sweep (p : Program) (m : Marking) : List Swept :=
  p.units.map fun u =>
    let used := m.used.getD u.id ∅
    (u, {
      reachable := m.visited.contains u.id
      used := u.exports.filter used.contains
      unused := u.exports.filter fun symbol => !used.contains symbol })

/-- Symbols of listed units as `unit:symbol`, sorted. -/
def listing (swept : List Swept) (pick : UnitUsage → Names) : List String :=
  (swept.flatMap fun (u, usage) => (pick usage).toList.map (qualified u.id)).mergeSort
    fun a b => (compare a b).isLE

/-- The report on a program. -/
def eliminate (p : Program) : EliminationReport :=
  let m := p.mark
  let swept := p.sweep m
  { filesProcessed := p.units.length
    bytesRemovedEstimate :=
      (swept.flatMap fun (_, usage) => usage.unused.toList.map estimatedSize).foldr (· + ·) 0
    unusedExports := listing swept (·.unused)
    usedExports := listing swept (·.used)
    units := Std.TreeMap.ofList (swept.map fun (u, usage) => (u.id, usage)) compare
    unresolvedImports := m.unresolved }

end Program

namespace EliminationReport

/-- The report says that the symbol is used. -/
def isUsed (r : EliminationReport) (unit symbol : String) : Bool :=
  r.units[unit]?.any (·.used.contains symbol)

/-- The units that cannot be reached. -/
def unreachable (r : EliminationReport) : List String :=
  (r.units.toList.filter fun (_, usage) => !usage.reachable).map Prod.fst

/-- A report as JSON. -/
def toJson (r : EliminationReport) : Json :=
  .object <|
    [("filesProcessed", Json.nat r.filesProcessed),
      ("bytesRemovedEstimate", Json.nat r.bytesRemovedEstimate),
      ("unusedExports", Json.strings r.unusedExports),
      ("usedExports", Json.strings r.usedExports),
      ("units", .object (r.units.toList.map fun (id, usage) =>
        (id, .object [("reachable", .bool usage.reachable), ("used", usage.used.toJson),
          ("unused", usage.unused.toJson)])))] ++
    if r.unresolvedImports.isEmpty then []
    else [("unresolvedImports", Json.strings r.unresolvedImports)]

end EliminationReport
end Rebuild
