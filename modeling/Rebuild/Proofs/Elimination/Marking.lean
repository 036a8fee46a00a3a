import Mathlib.Algebra.Ring.Nat
import Mathlib.Data.List.Nodup
import Mathlib.Data.List.Perm.Basic
import Rebuild.Proofs.Elimination.Worklist
import Rebuild.Proofs.Sorting

/-!
# What an elimination marks

A unit is reachable if it is used from outside or a reachable unit imports from it, and a symbol is
used if its unit is used from outside or a reachable unit requests it (`Reachable`, `Uses`).  The
worklist enters by what it comes to in the end: `visited_mark`, `mem_used_mark` and
`unresolved_mark`.

* **Units.**  `mem_reachable`: the search finds the reachable units, cycles or no.
* **Symbols.**  `mem_usageOf_used` and `mem_usageOf_unused` part the exports of a unit.
* **Lists.**  `Enumerates` says that a list holds the pairs of a relation, each once;
  `enumerates_picked` and `enumerates_dangling` are the lists behind a report.
* **Endpoint.**  `eliminate_exact`.
-/

namespace Rebuild

namespace Program

variable {p : Program} {u : CompileUnit} {id symbol : String}

/-! ## Reachable units and used symbols -/

/-- The unit is used from outside. -/
def Root (p : Program) (id : String) : Prop :=
  (∃ u ∈ p.units, u.isEntryPoint = true ∧ u.id = id) ∨ (id ∈ p.entryPoints ∧ id ∈ p.ids)

/-- The unit is used from outside, or a reachable unit has an edge to it. -/
inductive Reachable (p : Program) : String → Prop where
  | root {id : String} (h : p.Root id) : p.Reachable id
  | edge {u v : String} (hu : p.Reachable u) (h : p.Imports u v) (hv : v ∈ p.ids) : p.Reachable v

/-- The unit exports the symbol and is used from outside, or a reachable unit requests the symbol. -/
def Uses (p : Program) (u : CompileUnit) (symbol : String) : Prop :=
  symbol ∈ u.exports ∧ (p.Root u.id ∨ ∃ v, p.Reachable v ∧ p.Requests v u.id symbol)

lemma mem_roots : id ∈ p.roots ↔ p.Root id := by
  rw [roots, Std.TreeSet.mem_toList, Std.TreeSet.mem_ofList, List.contains_iff_mem, Root]
  simp [isKnown_iff, and_assoc]

/-- **The search finds exactly the reachable units.** -/
lemma mem_reachable : id ∈ p.reachable ↔ p.Reachable id := by
  constructor
  · intro h
    refine Reach.forall_order (P := p.Reachable) ?_ ?_ id h
    · intro u hu v hv hknown
      exact .edge hu (mem_targets.1 hv) (Reach.among_iff_mem.1 hknown)
    · intro v hv
      exact .root (mem_roots.1 hv)
  · intro h
    induction h with
    | root h => exact Reach.among_iff_mem.1 (Reach.among_order_of_mem (mem_roots.2 h))
    | edge hu h hv ih =>
        have hsettled := Reach.settled_order ih _ (mem_targets.2 h) (Reach.among_iff_mem.2 hv)
        exact Reach.among_iff_mem.1 hsettled

/-- Names that differ pairwise lead back to their units. -/
lemma unit?_of_mem (h : p.ids.Nodup) (hu : u ∈ p.units) : p.unit? u.id = some u := by
  have hfound : (p.unit? u.id).isSome := by
    rw [unit?, List.find?_isSome]
    exact ⟨u, by simpa using hu, by simp⟩
  obtain ⟨w, hw⟩ := Option.isSome_iff_exists.1 hfound
  have hmem : w ∈ p.units := by
    simpa using List.mem_of_find?_eq_some hw
  have hid : w.id = u.id := by
    simpa using List.find?_some hw
  rw [hw, List.inj_on_of_nodup_map h hmem hu hid]

/-- **The marked symbols of a unit are those that are used.** -/
lemma mem_used (h : p.ids.Nodup) (hu : u ∈ p.units) :
    symbol ∈ p.used p.imports p.reachable u.id ↔ p.Uses u symbol := by
  rw [mem_used_iff, unit?_of_mem h hu, mem_roots, mem_requested]
  simp [Uses, mem_reachable]

/-! ## Usages -/

/-- What is used of a unit. -/
def usageOf (p : Program) (u : CompileUnit) : UnitUsage where
  reachable := p.reachable.contains u.id
  used := u.exports.filter (p.used p.imports p.reachable u.id).contains
  unused := u.exports.filter fun symbol => !(p.used p.imports p.reachable u.id).contains symbol

/-- **What is swept is what the rule says.** -/
lemma sweep_eq (p : Program) : p.sweep p.mark = p.units.map fun u => (u, p.usageOf u) := by
  have hmarked : ∀ id symbol, (p.mark.used.getD id ∅).contains symbol
      = (p.used p.imports p.reachable id).contains symbol := by
    intro id symbol
    rw [Bool.eq_iff_iff, Std.TreeSet.contains_iff_mem, Std.TreeSet.contains_iff_mem, mem_used_mark]
  simp only [sweep, usageOf, hmarked, visited_mark, funext (hmarked _)]

lemma mem_usageOf_used (h : p.ids.Nodup) (hu : u ∈ p.units) :
    symbol ∈ (p.usageOf u).used ↔ p.Uses u symbol := by
  rw [usageOf, Names.mem_filter, Std.TreeSet.contains_iff_mem, mem_used h hu]
  exact and_iff_right_of_imp And.left

lemma mem_usageOf_unused (h : p.ids.Nodup) (hu : u ∈ p.units) :
    symbol ∈ (p.usageOf u).unused ↔ symbol ∈ u.exports ∧ ¬p.Uses u symbol := by
  rw [usageOf, Names.mem_filter, Bool.not_eq_true', Bool.eq_false_iff, ne_eq,
    Std.TreeSet.contains_iff_mem, mem_used h hu]

/-- The usages of a report, by the names of the units. -/
lemma units_eliminate (h : p.ids.Nodup) (hu : u ∈ p.units) :
    p.eliminate.units[u.id]? = some (p.usageOf u) := by
  refine Std.TreeMap.getElem?_ofList_of_mem Std.ReflCmp.compare_self ?_ ?_
  · rw [sweep_eq, List.map_map, List.pairwise_map]
    refine (List.pairwise_map.1 h).imp fun hne => ?_
    simpa using hne
  · rw [sweep_eq, List.map_map]
    exact List.mem_map.2 ⟨u, hu, rfl⟩

lemma mem_units_eliminate : id ∈ p.eliminate.units ↔ id ∈ p.ids := by
  rw [eliminate, Std.TreeMap.mem_ofList, List.contains_iff_mem, sweep_eq]
  simp [ids]

/-! ## Lists of pairs -/

/-- The list holds the pairs of the relation, each once. -/
structure Enumerates (pairs : List (String × String)) (R : String → String → Prop) : Prop where
  nodup : pairs.Nodup
  mem : ∀ a b, (a, b) ∈ pairs ↔ R a b

/-- Some of distinct names, each with a list of distinct names. -/
lemma enumerates_flatMap {α : Type} {items : List α} {f : α → String} {next : α → List String}
    {R : String → String → Prop} (hitems : (items.map f).Nodup)
    (hnext : ∀ x ∈ items, (next x).Nodup) (hR : ∀ a b, R a b ↔ ∃ x ∈ items, f x = a ∧ b ∈ next x) :
    Enumerates (items.flatMap fun x => (next x).map fun b => (f x, b)) R where
  nodup := by
    rw [List.nodup_flatMap]
    refine ⟨?_, ?_⟩
    · intro x hx
      exact (hnext x hx).map fun b c hbc => (Prod.mk.inj hbc).2
    · refine (List.pairwise_map.1 hitems).imp fun {x y} hxy => ?_
      refine List.disjoint_left.2 fun pair hx hy => ?_
      obtain ⟨b, -, rfl⟩ := List.mem_map.1 hx
      obtain ⟨c, -, hc⟩ := List.mem_map.1 hy
      exact hxy (Prod.mk.inj hc).1.symm
  mem a b := by
    rw [hR]
    simp only [List.mem_flatMap, List.mem_map, Prod.mk.injEq]
    refine exists_congr fun x => and_congr_right fun _ => ?_
    constructor
    · rintro ⟨c, hc, rfl, rfl⟩
      exact ⟨rfl, hc⟩
    · rintro ⟨rfl, hb⟩
      exact ⟨b, hb, rfl, rfl⟩

lemma nodup_toList (names : Names) : names.toList.Nodup :=
  Std.TreeSet.distinct_toList.imp Std.ReflCmp.ne_of_cmp_ne_eq

/-- The symbols that are picked of each unit, under the name of the unit. -/
def picked (p : Program) (pick : UnitUsage → Names) : List (String × String) :=
  p.units.flatMap fun u => (pick (p.usageOf u)).toList.map fun symbol => (u.id, symbol)

lemma enumerates_picked (h : p.ids.Nodup) {pick : UnitUsage → Names}
    {P : CompileUnit → String → Prop}
    (hpick : ∀ u ∈ p.units, ∀ symbol, symbol ∈ pick (p.usageOf u) ↔ P u symbol) :
    Enumerates (p.picked pick) fun id symbol => ∃ u ∈ p.units, u.id = id ∧ P u symbol := by
  refine enumerates_flatMap h (fun u _ => nodup_toList _) fun id symbol => ?_
  refine exists_congr fun u => and_congr_right fun hu => and_congr_right fun _ => ?_
  rw [Std.TreeSet.mem_toList, hpick u hu]

/-- A listing has the picked symbols in order. -/
lemma listing_spec (p : Program) (pick : UnitUsage → Names) :
    (listing (p.sweep p.mark) pick).Perm ((p.picked pick).map fun x => qualified x.1 x.2)
      ∧ (listing (p.sweep p.mark) pick).Pairwise fun a b => (compare a b).isLE = true := by
  have hpicked : (p.picked pick).map (fun x => qualified x.1 x.2)
      = (p.sweep p.mark).flatMap fun x => (pick x.2).toList.map (qualified x.1.id) := by
    simp [picked, sweep_eq, List.map_flatMap, List.flatMap_map, Function.comp_def]
  rw [hpicked]
  exact ⟨List.mergeSort_perm _ _, pairwise_mergeSort _⟩

/-- The estimate weighs the symbols that are not used. -/
lemma bytesRemovedEstimate_eq (p : Program) : p.eliminate.bytesRemovedEstimate
    = ((p.picked (·.unused)).map fun x => estimatedSize x.2).sum := by
  simp [eliminate, picked, sweep_eq, List.map_flatMap, List.flatMap_map, Function.comp_def,
    List.sum_eq_foldr]

/-- The edges to unknown units, from the reachable ones. -/
def dangling (p : Program) : List (String × String) :=
  p.reachable.flatMap fun id =>
    ((targets p.imports id).filter fun target => !p.isKnown target).map fun target => (id, target)

lemma enumerates_dangling (p : Program) :
    Enumerates p.dangling fun u v => p.Reachable u ∧ p.Imports u v ∧ v ∉ p.ids := by
  have hreachable : p.reachable.Nodup := Reach.nodup_order
  refine enumerates_flatMap (f := id) (by simpa using hreachable) ?_ fun u v => ?_
  · intro id _
    exact Std.TreeMap.nodup_keys.filter _
  · simp [← mem_reachable, ← mem_targets, ← isKnown_iff]

lemma unresolvedImports_eq (p : Program) : p.eliminate.unresolvedImports
    = p.dangling.map fun x => x.1 ++ "->" ++ x.2 := by
  simp [eliminate, unresolved_mark, unresolved, dangling, List.map_flatMap, Function.comp_def]

/-! ## The report -/

/-- **An elimination marks exactly the used symbols.**  If no name is used for two units, the report
has one usage for each unit: it says whether the unit is reachable, and parts its exports into those
that are used and all others.  The used and the unused symbols of all units are listed in order, the
estimate weighs the latter, and every edge from a reachable unit to an unknown one is named once. -/
theorem eliminate_exact (h : p.ids.Nodup) :
    (∀ id, id ∈ p.eliminate.units ↔ id ∈ p.ids)
      ∧ (∀ u ∈ p.units, ∃ usage, p.eliminate.units[u.id]? = some usage
        ∧ (usage.reachable = true ↔ p.Reachable u.id)
        ∧ (∀ symbol, symbol ∈ usage.used ↔ p.Uses u symbol)
        ∧ ∀ symbol, symbol ∈ usage.unused ↔ symbol ∈ u.exports ∧ ¬p.Uses u symbol)
      ∧ (∃ pairs, Enumerates pairs (fun id symbol => ∃ u ∈ p.units, u.id = id ∧ p.Uses u symbol)
        ∧ p.eliminate.usedExports.Perm (pairs.map fun x => x.1 ++ ":" ++ x.2)
        ∧ p.eliminate.usedExports.Pairwise fun a b => (compare a b).isLE = true)
      ∧ (∃ pairs, Enumerates pairs
          (fun id symbol => ∃ u ∈ p.units, u.id = id ∧ symbol ∈ u.exports ∧ ¬p.Uses u symbol)
        ∧ p.eliminate.unusedExports.Perm (pairs.map fun x => x.1 ++ ":" ++ x.2)
        ∧ (p.eliminate.unusedExports.Pairwise fun a b => (compare a b).isLE = true)
        ∧ p.eliminate.bytesRemovedEstimate = (pairs.map fun x => 64 + 8 * x.2.utf8ByteSize).sum)
      ∧ ∃ pairs, Enumerates pairs (fun u v => p.Reachable u ∧ p.Imports u v ∧ v ∉ p.ids)
        ∧ p.eliminate.unresolvedImports = pairs.map fun x => x.1 ++ "->" ++ x.2 := by
  refine ⟨fun id => mem_units_eliminate, ?_, ?_, ?_, ?_⟩
  · intro u hu
    refine ⟨p.usageOf u, units_eliminate h hu, ?_, ?_, ?_⟩
    · rw [usageOf, List.contains_iff_mem, mem_reachable]
    · intro symbol
      exact mem_usageOf_used h hu
    · intro symbol
      exact mem_usageOf_unused h hu
  · obtain ⟨hperm, hsorted⟩ := p.listing_spec (·.used)
    exact ⟨_, enumerates_picked h fun u hu symbol => mem_usageOf_used h hu, hperm, hsorted⟩
  · obtain ⟨hperm, hsorted⟩ := p.listing_spec (·.unused)
    exact ⟨_, enumerates_picked h fun u hu symbol => mem_usageOf_unused h hu, hperm, hsorted,
      p.bytesRemovedEstimate_eq⟩
  · exact ⟨_, p.enumerates_dangling, p.unresolvedImports_eq⟩

/-! ## A cycle

`a` is used from outside and needs `b`, which needs `a` back and a unit that is not there. -/

/-- Two units that import from each other, and one that nobody needs. -/
def cyclic : Program where
  units := [
    (CompileUnit.withExports { id := "a", isEntryPoint := true } ["fa"]).importing "b" ["fb"],
    ((CompileUnit.withExports { id := "b" } ["fb", "gb"]).importing "a" ["fa"]).importing "lost" [],
    CompileUnit.withExports { id := "c" } ["fc"]]
  entryPoints := ["d"]

lemma imports_cyclic {u v : String} (h : (targets cyclic.imports u).contains v = true) :
    cyclic.Imports u v :=
  mem_targets.1 (List.contains_iff_mem.1 h)

/-- The usage of `b` in the report on the cycle, and the edge that leads nowhere. -/
theorem eliminate_exact_cyclic : cyclic.ids.Nodup
    ∧ (∃ usage, cyclic.eliminate.units["b"]? = some usage ∧ usage.reachable = true
      ∧ "fb" ∈ usage.used)
    ∧ "b->lost" ∈ cyclic.eliminate.unresolvedImports := by
  have hids : cyclic.ids.Nodup := by decide
  have ha : cyclic.Reachable "a" := .root (Or.inl ⟨_, List.mem_cons_self, rfl, rfl⟩)
  have hb : cyclic.Reachable "b" := .edge ha (imports_cyclic (by decide)) (by decide)
  obtain ⟨-, husage, -, -, pairs, hpairs, hunresolved⟩ := eliminate_exact hids
  refine ⟨hids, ?_, ?_⟩
  · obtain ⟨usage, hunit, hreachable, hused, -⟩ :=
      husage _ (List.mem_cons_of_mem _ List.mem_cons_self)
    have hrequests : cyclic.Requests "a" "b" "fb" :=
      ⟨_, Or.inl ⟨_, List.mem_cons_self, rfl, rfl⟩, ImportTable.requests_iff.2 (by decide)⟩
    exact ⟨usage, hunit, hreachable.2 hb, (hused "fb").2 ⟨by decide, Or.inr ⟨"a", ha, hrequests⟩⟩⟩
  · rw [hunresolved]
    exact List.mem_map.2 ⟨("b", "lost"), (hpairs.mem _ _).2
      ⟨hb, imports_cyclic (by decide), by decide⟩, rfl⟩

end Program
end Rebuild
