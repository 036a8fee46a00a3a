import Rebuild.Proofs.Elimination.Marking

/-!
# Eliminating twice

What is left of a program without its unreachable units and unused exports has nothing that could be
eliminated (`eliminate_prune`): nothing that was taken away had a part in what was found of the rest.

* **Pruning.**  `Program.prune` keeps what a report has reachable and used.  Reachable units keep
  their edges (`declares_prune`), so the same units are reachable (`reachable_prune_iff`) and the same
  symbols used (`uses_prune`).
* **Lists.**  A sorted list is known by its members, and so are the roots and the targets of a unit.
  Hence the search goes the same way (`reachable_prune`), and meets the same unknown units.
-/

namespace Rebuild

/-! ## Pruning -/

/-- The unit with its used exports, if the report has it reachable. -/
def CompileUnit.prune? (u : CompileUnit) (r : EliminationReport) : Option CompileUnit :=
  r.units[u.id]?.bind fun usage =>
    if usage.reachable then some { u with exports := usage.used } else none

namespace Program

/-- The reachable units of the report, with their used exports. -/
def prune (p : Program) (r : EliminationReport) : Program :=
  { p with units := p.units.filterMap (·.prune? r) }

variable {p : Program} {u : CompileUnit} {id symbol : String} {t : ImportTable}

/-- The unit with its used exports. -/
def trimmed (p : Program) (u : CompileUnit) : CompileUnit := { u with exports := (p.usageOf u).used }

lemma prune?_eq_some_iff (h : p.ids.Nodup) (hu : u ∈ p.units) {v : CompileUnit} :
    u.prune? p.eliminate = some v ↔ p.Reachable u.id ∧ p.trimmed u = v := by
  have hreachable : (p.usageOf u).reachable = true ↔ p.Reachable u.id := by
    rw [usageOf, List.contains_iff_mem, mem_reachable]
  rw [CompileUnit.prune?, units_eliminate h hu, Option.bind_some, ← hreachable, trimmed]
  by_cases hkept : (p.usageOf u).reachable = true
  · rw [if_pos hkept, Option.some.injEq, and_iff_right hkept]
  · rw [if_neg hkept]
    exact iff_of_false (by simp) fun hsome => hkept hsome.1

lemma mem_units_prune (h : p.ids.Nodup) {v : CompileUnit} : v ∈ (p.prune p.eliminate).units
    ↔ ∃ u ∈ p.units, p.Reachable u.id ∧ p.trimmed u = v := by
  rw [prune, List.mem_filterMap]
  exact exists_congr fun u => and_congr_right fun hu => prune?_eq_some_iff h hu

lemma id_of_prune? {r : EliminationReport} {v : CompileUnit} (h : u.prune? r = some v) :
    v.id = u.id := by
  obtain ⟨usage, -, hkept⟩ := Option.bind_eq_some_iff.1 h
  split_ifs at hkept
  cases hkept
  rfl

/-- No name is used for two units if that was so before. -/
lemma nodup_ids_prune (h : p.ids.Nodup) (r : EliminationReport) : (p.prune r).ids.Nodup := by
  have hids : (p.prune r).ids
      = p.units.filterMap fun u => (u.prune? r).map (·.id) := List.map_filterMap
  refine h.sublist ?_
  rw [hids, ids]
  generalize p.units = units
  induction units with
  | nil => exact List.Sublist.refl _
  | cons u units ih =>
      rw [List.filterMap_cons, List.map_cons]
      cases hkept : u.prune? r with
      | none => exact ih.cons _
      | some v =>
          rw [Option.map_some, id_of_prune? hkept]
          exact ih.cons_cons _

/-! ## Edges of reachable units -/

lemma Reachable.mem_ids (h : p.Reachable id) : id ∈ p.ids := by
  cases h with
  | root h =>
      obtain ⟨u, hu, -, rfl⟩ | ⟨-, hknown⟩ := h
      · exact List.mem_map_of_mem hu
      · exact hknown
  | edge _ _ hv => exact hv

lemma Uses.reachable (hu : u ∈ p.units) (h : p.Uses u symbol) : p.Reachable u.id := by
  obtain ⟨-, hroot | ⟨v, hv, t, hdeclares, names, hnames, -⟩⟩ := h
  · exact .root hroot
  · refine .edge hv ⟨t, hdeclares, ?_⟩ (List.mem_map_of_mem hu)
    rw [Std.TreeMap.mem_iff_isSome_getElem?, hnames]
    rfl

section

variable (h : p.ids.Nodup)

include h

lemma mem_ids_prune : id ∈ (p.prune p.eliminate).ids ↔ p.Reachable id := by
  rw [ids, List.mem_map]
  constructor
  · rintro ⟨v, hv, rfl⟩
    obtain ⟨u, -, hreachable, rfl⟩ := (mem_units_prune h).1 hv
    exact hreachable
  · intro hreachable
    obtain ⟨u, hu, rfl⟩ := List.mem_map.1 hreachable.mem_ids
    exact ⟨p.trimmed u, (mem_units_prune h).2 ⟨u, hu, hreachable, rfl⟩, rfl⟩

lemma declares_prune (hid : p.Reachable id) :
    (p.prune p.eliminate).Declares id t ↔ p.Declares id t := by
  refine or_congr_left ⟨?_, ?_⟩
  · rintro ⟨v, hv, rfl, rfl⟩
    obtain ⟨u, hu, -, rfl⟩ := (mem_units_prune h).1 hv
    exact ⟨u, hu, rfl, rfl⟩
  · rintro ⟨u, hu, rfl, rfl⟩
    exact ⟨p.trimmed u, (mem_units_prune h).2 ⟨u, hu, hid, rfl⟩, rfl, rfl⟩

lemma imports_prune (hid : p.Reachable id) {target : String} :
    (p.prune p.eliminate).Imports id target ↔ p.Imports id target :=
  exists_congr fun _ => and_congr_left fun _ => declares_prune h hid

lemma requests_prune (hid : p.Reachable id) {target : String} :
    (p.prune p.eliminate).Requests id target symbol ↔ p.Requests id target symbol :=
  exists_congr fun _ => and_congr_left fun _ => declares_prune h hid

lemma root_prune : (p.prune p.eliminate).Root id ↔ p.Root id := by
  constructor
  · rintro (⟨v, hv, hflag, rfl⟩ | ⟨hentry, hknown⟩)
    · obtain ⟨u, hu, -, rfl⟩ := (mem_units_prune h).1 hv
      exact .inl ⟨u, hu, hflag, rfl⟩
    · exact .inr ⟨hentry, ((mem_ids_prune h).1 hknown).mem_ids⟩
  · intro hroot
    have hreachable : p.Reachable id := .root hroot
    obtain ⟨u, hu, hflag, rfl⟩ | ⟨hentry, -⟩ := hroot
    · exact .inl ⟨p.trimmed u, (mem_units_prune h).2 ⟨u, hu, hreachable, rfl⟩, hflag, rfl⟩
    · exact .inr ⟨hentry, (mem_ids_prune h).2 hreachable⟩

/-- **The same units are reachable.** -/
lemma reachable_prune_iff : (p.prune p.eliminate).Reachable id ↔ p.Reachable id := by
  constructor
  · intro hreachable
    exact (mem_ids_prune h).1 hreachable.mem_ids
  · intro hreachable
    induction hreachable with
    | root hroot => exact .root ((root_prune h).2 hroot)
    | edge hu himports hv ih =>
        exact .edge ih ((imports_prune h hu).2 himports)
          ((mem_ids_prune h).2 (.edge hu himports hv))

/-- **The same symbols are used**, and all that are left. -/
lemma uses_prune (hu : u ∈ p.units) :
    (p.prune p.eliminate).Uses (p.trimmed u) symbol ↔ p.Uses u symbol := by
  have hexports : symbol ∈ (p.trimmed u).exports ↔ p.Uses u symbol := mem_usageOf_used h hu
  rw [Uses, hexports]
  refine and_iff_left_of_imp ?_
  rintro ⟨-, hroot | ⟨v, hv, hrequests⟩⟩
  · exact .inl ((root_prune h).2 hroot)
  · exact .inr ⟨v, (reachable_prune_iff h).2 hv, (requests_prune h hv).2 hrequests⟩

/-! ## Lists -/

lemma roots_prune : (p.prune p.eliminate).roots = p.roots := by
  refine eq_of_mem_iff Std.TreeSet.ordered_toList Std.TreeSet.ordered_toList fun id => ?_
  show id ∈ (p.prune p.eliminate).roots ↔ id ∈ p.roots
  rw [mem_roots, mem_roots, root_prune h]

lemma targets_prune (hid : p.Reachable id) :
    targets (p.prune p.eliminate).imports id = targets p.imports id := by
  refine eq_of_mem_iff Std.TreeMap.ordered_keys Std.TreeMap.ordered_keys fun target => ?_
  exact mem_targets.trans ((imports_prune h hid).trans mem_targets.symm)

/-- What a reachable unit imports from is left if it was there. -/
lemma isKnown_prune (hid : p.Reachable id) {target : String}
    (htarget : target ∈ targets p.imports id) :
    (p.prune p.eliminate).isKnown target = p.isKnown target := by
  rw [Bool.eq_iff_iff, isKnown_iff, isKnown_iff, mem_ids_prune h]
  exact ⟨Reachable.mem_ids, fun hknown => .edge hid (mem_targets.1 htarget) hknown⟩

/-- **The search goes the same way.** -/
lemma reachable_prune : (p.prune p.eliminate).reachable = p.reachable := by
  rw [reachable, roots_prune h]
  refine Reach.order_congr_of_forall (P := p.Reachable) ?_ ?_ fun id hid => .root (mem_roots.1 hid)
  · intro id hid target htarget hknown
    exact .edge hid (mem_targets.1 htarget) (Reach.among_iff_mem.1 hknown)
  · intro id hid
    rw [targets_prune h hid]
    refine List.filter_congr fun target htarget => ?_
    have hknown := isKnown_prune h hid htarget
    rw [Bool.eq_iff_iff, isKnown_iff, isKnown_iff] at hknown
    rw [Bool.eq_iff_iff, Reach.among_iff_mem, Reach.among_iff_mem, hknown]

lemma dangling_prune : (p.prune p.eliminate).dangling = p.dangling := by
  rw [dangling, dangling, reachable_prune h]
  refine List.flatMap_congr fun id hid => ?_
  have hreachable := mem_reachable.1 hid
  rw [targets_prune h hreachable]
  refine congrArg _ (List.filter_congr fun target htarget => ?_)
  rw [isKnown_prune h hreachable htarget]

omit h in
/-- Lists that hold the pairs of one relation, each once. -/
lemma Enumerates.perm {xs ys : List (String × String)} {R S : String → String → Prop}
    (hxs : Enumerates xs R) (hys : Enumerates ys S) (hRS : ∀ a b, R a b ↔ S a b) :
    xs.Perm ys := by
  refine (List.perm_ext_iff_of_nodup hxs.nodup hys.nodup).2 fun ⟨a, b⟩ => ?_
  rw [hxs.mem, hys.mem, hRS]

lemma picked_used_prune :
    ((p.prune p.eliminate).picked (·.used)).Perm (p.picked (·.used)) := by
  have hids := nodup_ids_prune h p.eliminate
  refine (enumerates_picked hids fun v hv symbol => mem_usageOf_used hids hv).perm
    (enumerates_picked h fun u hu symbol => mem_usageOf_used h hu) fun id symbol => ?_
  constructor
  · rintro ⟨v, hv, rfl, huses⟩
    obtain ⟨u, hu, -, rfl⟩ := (mem_units_prune h).1 hv
    exact ⟨u, hu, rfl, (uses_prune h hu).1 huses⟩
  · rintro ⟨u, hu, rfl, huses⟩
    exact ⟨p.trimmed u, (mem_units_prune h).2 ⟨u, hu, huses.reachable hu, rfl⟩, rfl,
      (uses_prune h hu).2 huses⟩

/-- All exports that are left are used. -/
lemma not_mem_unused_prune {v : CompileUnit} (hv : v ∈ (p.prune p.eliminate).units) :
    symbol ∉ ((p.prune p.eliminate).usageOf v).unused := by
  rw [mem_usageOf_unused (nodup_ids_prune h _) hv]
  obtain ⟨u, hu, -, rfl⟩ := (mem_units_prune h).1 hv
  rintro ⟨hexports, hnot⟩
  exact hnot ((uses_prune h hu).2 ((mem_usageOf_used h hu).1 hexports))

lemma picked_unused_prune : (p.prune p.eliminate).picked (·.unused) = [] := by
  rw [picked, List.flatMap_eq_nil_iff]
  intro v hv
  rw [List.map_eq_nil_iff, List.eq_nil_iff_forall_not_mem]
  intro symbol hsymbol
  exact not_mem_unused_prune h hv (Std.TreeSet.mem_toList.1 hsymbol)

/-! ## The second report -/

omit h in
/-- The report says of a symbol that it is used if it is. -/
lemma isUsed_eliminate_iff (h : p.ids.Nodup) :
    p.eliminate.isUsed id symbol = true ↔ ∃ u ∈ p.units, u.id = id ∧ p.Uses u symbol := by
  rw [EliminationReport.isUsed, Option.any_eq_true]
  constructor
  · rintro ⟨usage, husage, hused⟩
    have hknown : id ∈ p.eliminate.units := by
      rw [Std.TreeMap.mem_iff_isSome_getElem?, husage]
      rfl
    obtain ⟨u, hu, rfl⟩ := List.mem_map.1 (mem_units_eliminate.1 hknown)
    obtain rfl := Option.some.inj ((units_eliminate h hu).symm.trans husage)
    exact ⟨u, hu, rfl, (mem_usageOf_used h hu).1 (Std.TreeSet.contains_iff_mem.1 hused)⟩
  · rintro ⟨u, hu, rfl, huses⟩
    exact ⟨p.usageOf u, units_eliminate h hu,
      Std.TreeSet.contains_iff_mem.2 ((mem_usageOf_used h hu).2 huses)⟩

lemma usage_of_prune {usage : UnitUsage}
    (husage : (p.prune p.eliminate).eliminate.units[id]? = some usage) :
    usage.reachable = true ∧ ∀ symbol, symbol ∉ usage.unused := by
  have hids := nodup_ids_prune h p.eliminate
  have hknown : id ∈ (p.prune p.eliminate).eliminate.units := by
    rw [Std.TreeMap.mem_iff_isSome_getElem?, husage]
    rfl
  obtain ⟨v, hv, rfl⟩ := List.mem_map.1 (mem_units_eliminate.1 hknown)
  obtain rfl := Option.some.inj ((units_eliminate hids hv).symm.trans husage)
  refine ⟨?_, fun symbol => not_mem_unused_prune h hv⟩
  rw [usageOf, List.contains_iff_mem, mem_reachable, reachable_prune_iff h]
  obtain ⟨u, -, hreachable, rfl⟩ := (mem_units_prune h).1 hv
  exact hreachable

end

/-- **Eliminating twice does it once.**  If no name is used for two units, then in the program with
the reachable units and the used exports, for the same entry points and extra imports, every unit is
reachable, the same exports are used, no export is unused, nothing could be saved, and the same
imports lead to unknown units. -/
theorem eliminate_prune (h : p.ids.Nodup) :
    (∀ id, id ∈ (p.prune p.eliminate).eliminate.units ↔ p.Reachable id)
      ∧ (∀ (id : String) (usage : UnitUsage),
        (p.prune p.eliminate).eliminate.units[id]? = some usage →
        usage.reachable = true ∧ ∀ symbol, symbol ∉ usage.unused)
      ∧ (p.prune p.eliminate).eliminate.unreachable = []
      ∧ (∀ id symbol, (p.prune p.eliminate).eliminate.isUsed id symbol
        = p.eliminate.isUsed id symbol)
      ∧ (p.prune p.eliminate).eliminate.usedExports = p.eliminate.usedExports
      ∧ (p.prune p.eliminate).eliminate.unusedExports = []
      ∧ (p.prune p.eliminate).eliminate.bytesRemovedEstimate = 0
      ∧ (p.prune p.eliminate).eliminate.unresolvedImports = p.eliminate.unresolvedImports := by
  have hids := nodup_ids_prune h p.eliminate
  refine ⟨?_, fun id usage => usage_of_prune h, ?_, ?_, ?_, ?_, ?_, ?_⟩
  · intro id
    rw [mem_units_eliminate, mem_ids_prune h]
  · rw [EliminationReport.unreachable, List.map_eq_nil_iff, List.filter_eq_nil_iff]
    rintro ⟨id, usage⟩ hmem
    have husage := Std.TreeMap.mem_toList_iff_getElem?_eq_some.1 hmem
    simp [(usage_of_prune h husage).1]
  · intro id symbol
    rw [Bool.eq_iff_iff, isUsed_eliminate_iff hids, isUsed_eliminate_iff h]
    have hpairs := (picked_used_prune h).mem_iff (a := (id, symbol))
    rwa [(enumerates_picked hids fun v hv symbol => mem_usageOf_used hids hv).mem,
      (enumerates_picked h fun u hu symbol => mem_usageOf_used h hu).mem] at hpairs
  · obtain ⟨hperm, hsorted⟩ := (p.prune p.eliminate).listing_spec (·.used)
    obtain ⟨hperm', hsorted'⟩ := p.listing_spec (·.used)
    exact eq_of_perm_of_pairwise
      ((hperm.trans ((picked_used_prune h).map _)).trans hperm'.symm) hsorted hsorted'
  · obtain ⟨hperm, -⟩ := (p.prune p.eliminate).listing_spec (·.unused)
    rw [picked_unused_prune h] at hperm
    exact hperm.eq_nil
  · rw [bytesRemovedEstimate_eq, picked_unused_prune h]
    rfl
  · rw [unresolvedImports_eq, unresolvedImports_eq, dangling_prune h]

lemma reachable_cyclic : cyclic.reachable = ["a", "b"] := by
  have hroots : Reach.fresh [] cyclic.roots = ["a"] := by decide +kernel
  have ha : Reach.fresh ["a"] ((targets cyclic.imports "a").filter (Reach.among cyclic.ids))
      = ["b"] := by
    decide +kernel
  have hb : Reach.fresh ["a", "b"] ((targets cyclic.imports "b").filter (Reach.among cyclic.ids))
      = [] := by
    decide +kernel
  exact Reach.order_eq_pair hroots ha hb

/-- The cycle without its unused exports and the unit that nobody needs. -/
theorem eliminate_prune_cyclic : cyclic.ids.Nodup
    ∧ cyclic.eliminate.unusedExports = ["b:gb", "c:fc"]
    ∧ (cyclic.prune cyclic.eliminate).eliminate.unusedExports = []
    ∧ (cyclic.prune cyclic.eliminate).eliminate.unresolvedImports
      = cyclic.eliminate.unresolvedImports := by
  have hids : cyclic.ids.Nodup := by decide
  have hpicked : cyclic.picked (·.unused) = [("b", "gb"), ("c", "fc")] := by
    simp only [picked, usageOf, reachable_cyclic]
    decide +kernel
  obtain ⟨hperm, hsorted⟩ := cyclic.listing_spec (·.unused)
  rw [hpicked] at hperm
  obtain ⟨-, -, -, -, -, hunused, -, hunresolved⟩ := eliminate_prune hids
  exact ⟨hids, eq_of_perm_of_pairwise hperm hsorted (by decide), hunused, hunresolved⟩

end Program
end Rebuild
