import Rebuild.Proofs.Elimination.Marking

/-!
# Names of several units

An elimination has its units in a list, and by their names in tables, where the last unit of a name
takes the place of those before it.  The lists of a report have the symbols of all units, while the
usages in it are of the units that were not overtaken.

* **Tables.**  `toList_units_eliminate`: the usages are those of the units that are last of their
  names, each once.
* **Lists.**  `listing_eq_listed_iff`: a list of the report is what the usages say exactly if no
  overtaken unit has a part in it.
* **Endpoint.**  `viewsAgree_iff`: the parts of a report agree exactly if the overtaken units export
  nothing.
-/

namespace Rebuild

/-- The symbols that are picked of the usages in the report, as `unit:symbol`, sorted. -/
def EliminationReport.listed (r : EliminationReport) (pick : UnitUsage → Names) : List String :=
  (r.units.toList.flatMap fun (id, usage) => (pick usage).toList.map (qualified id)).mergeSort
    fun a b => (compare a b).isLE

/-! ## The last units of their names -/

/-- The units with a later unit of the same name. -/
def overtaken : List CompileUnit → List CompileUnit
  | [] => []
  | u :: units => if u.id ∈ units.map (·.id) then u :: overtaken units else overtaken units

/-- The units without a later unit of the same name. -/
def lasting : List CompileUnit → List CompileUnit
  | [] => []
  | u :: units => if u.id ∈ units.map (·.id) then lasting units else u :: lasting units

variable {u : CompileUnit} {id : String}

lemma perm_overtaken_append_lasting (units : List CompileUnit) :
    (overtaken units ++ lasting units).Perm units := by
  induction units with
  | nil => exact .nil
  | cons u units ih =>
      rw [overtaken, lasting]
      split_ifs
      · exact ih.cons u
      · exact List.perm_middle.trans (ih.cons u)

lemma mem_of_mem_lasting {units : List CompileUnit} (h : u ∈ lasting units) : u ∈ units :=
  (perm_overtaken_append_lasting units).mem_iff.1 (List.mem_append_right _ h)

/-- Every name has a last unit. -/
lemma mem_map_id_lasting {units : List CompileUnit} :
    id ∈ (lasting units).map (·.id) ↔ id ∈ units.map (·.id) := by
  constructor
  · intro h
    obtain ⟨u, hu, rfl⟩ := List.mem_map.1 h
    exact List.mem_map_of_mem (mem_of_mem_lasting hu)
  · induction units with
    | nil => exact fun h => h
    | cons u units ih =>
        intro h
        rw [lasting]
        rw [List.map_cons, List.mem_cons] at h
        split_ifs with hlater
        · exact h.elim (fun hid => ih (hid ▸ hlater)) ih
        · rw [List.map_cons, List.mem_cons]
          exact h.imp_right ih

/-- No name has two last units. -/
lemma nodup_map_id_lasting (units : List CompileUnit) : ((lasting units).map (·.id)).Nodup := by
  induction units with
  | nil => exact List.nodup_nil
  | cons u units ih =>
      rw [lasting]
      split_ifs with hlater
      · exact ih
      · rw [List.map_cons, List.nodup_cons, mem_map_id_lasting]
        exact ⟨hlater, ih⟩

/-- In a table by names, the last units stay. -/
lemma getElem?_insertMany_of_mem_lasting {β : Type} (f : CompileUnit → β) {units : List CompileUnit}
    (h : u ∈ lasting units) (table : Std.TreeMap String β compare) :
    (table.insertMany (units.map fun u => (u.id, f u)))[u.id]? = some (f u) := by
  induction units generalizing table with
  | nil => cases h
  | cons v units ih =>
      rw [List.map_cons, Std.TreeMap.insertMany_cons]
      rw [lasting] at h
      split_ifs at h with hlater
      · exact ih h _
      · obtain rfl | h := List.mem_cons.1 h
        · have hkeys : ((units.map fun u => (u.id, f u)).map Prod.fst).contains u.id = false := by
            rw [List.map_map, ← Bool.not_eq_true, List.contains_iff_mem]
            exact hlater
          rw [Std.TreeMap.getElem?_insertMany_list_of_contains_eq_false hkeys,
            Std.TreeMap.getElem?_insert_self]
        · exact ih h _

namespace Program

variable {p : Program} {symbol : String}

/-- The unit of a name is the last one. -/
lemma unit?_of_mem_lasting (h : u ∈ lasting p.units) : p.unit? u.id = some u := by
  rw [unit?]
  generalize p.units = units at h ⊢
  induction units with
  | nil => cases h
  | cons v units ih =>
      rw [List.reverse_cons, List.find?_append]
      rw [lasting] at h
      split_ifs at h with hlater
      · rw [ih h, Option.some_or]
      · obtain rfl | h := List.mem_cons.1 h
        · have hnone : units.reverse.find? (·.id == u.id) = none := by
            rw [List.find?_eq_none]
            intro w hw hid
            exact hlater (List.mem_map.2 ⟨w, List.mem_reverse.1 hw, beq_iff_eq.1 hid⟩)
          rw [hnone, Option.none_or, List.find?_singleton, if_pos (beq_self_eq_true u.id)]
        · rw [ih h, Option.some_or]

/-! ## The usages of a report -/

lemma getElem?_units_of_mem_lasting (h : u ∈ lasting p.units) :
    p.eliminate.units[u.id]? = some (p.usageOf u) := by
  have hunits : p.eliminate.units
      = Std.TreeMap.ofList (p.units.map fun u => (u.id, p.usageOf u)) compare := by
    rw [eliminate, sweep_eq, List.map_map]
    rfl
  rw [hunits, Std.TreeMap.ofList_eq_insertMany_empty]
  exact getElem?_insertMany_of_mem_lasting p.usageOf h ∅

/-- **The report has the usages of the last units.** -/
lemma toList_units_eliminate (p : Program) :
    p.eliminate.units.toList.Perm ((lasting p.units).map fun u => (u.id, p.usageOf u)) := by
  refine (List.perm_ext_iff_of_nodup ?_ ?_).2 ?_
  · have hkeys : (p.eliminate.units.toList.map Prod.fst).Nodup := by
      rw [Std.TreeMap.map_fst_toList_eq_keys]
      exact Std.TreeMap.nodup_keys
    exact hkeys.of_map
  · have hids := nodup_map_id_lasting p.units
    refine List.Nodup.of_map (f := Prod.fst) ?_
    rwa [List.map_map]
  · rintro ⟨id, usage⟩
    rw [Std.TreeMap.mem_toList_iff_getElem?_eq_some, List.mem_map]
    constructor
    · intro husage
      have hknown : id ∈ p.eliminate.units := by
        rw [Std.TreeMap.mem_iff_isSome_getElem?, husage]
        rfl
      obtain ⟨u, hu, rfl⟩ :=
        List.mem_map.1 (mem_map_id_lasting.2 (mem_units_eliminate.1 hknown))
      exact ⟨u, hu, Prod.ext rfl (Option.some.inj
        ((getElem?_units_of_mem_lasting hu).symm.trans husage))⟩
    · rintro ⟨u, hu, hpair⟩
      obtain ⟨rfl, rfl⟩ := Prod.mk.inj hpair
      exact getElem?_units_of_mem_lasting hu

/-- **A list of the report is what the usages say exactly if no overtaken unit has a part in it.** -/
lemma listing_eq_listed_iff (p : Program) (pick : UnitUsage → Names) :
    listing (p.sweep p.mark) pick = p.eliminate.listed pick
      ↔ ∀ u ∈ overtaken p.units, ∀ symbol, symbol ∉ pick (p.usageOf u) := by
  let names (u : CompileUnit) : List String := (pick (p.usageOf u)).toList.map (qualified u.id)
  have hlisting : (listing (p.sweep p.mark) pick).Perm
      ((overtaken p.units).flatMap names ++ (lasting p.units).flatMap names) := by
    rw [← List.flatMap_append, listing, sweep_eq, List.flatMap_map]
    exact (List.mergeSort_perm _ _).trans
      ((perm_overtaken_append_lasting p.units).symm.flatMap_right names)
  have hlisted : (p.eliminate.listed pick).Perm ((lasting p.units).flatMap names) := by
    refine (List.mergeSort_perm _ _).trans ((p.toList_units_eliminate.flatMap_right _).trans ?_)
    rw [List.flatMap_map]
  have hparts : (∀ u ∈ overtaken p.units, ∀ symbol, symbol ∉ pick (p.usageOf u))
      ↔ (overtaken p.units).flatMap names = [] := by
    rw [List.flatMap_eq_nil_iff]
    refine forall₂_congr fun u _ => ?_
    rw [List.map_eq_nil_iff, List.eq_nil_iff_forall_not_mem]
    exact forall_congr' fun symbol => not_congr Std.TreeSet.mem_toList.symm
  rw [hparts]
  constructor
  · intro heq
    have hlength := (hlisting.symm.trans (heq ▸ hlisted)).length_eq
    rw [List.length_append] at hlength
    exact List.length_eq_zero_iff.1 (by omega)
  · intro hnil
    rw [hnil, List.nil_append] at hlisting
    exact eq_of_perm_of_pairwise (hlisting.trans hlisted.symm) (pairwise_mergeSort _)
      (pairwise_mergeSort _)

/-! ## The parts of a report -/

/-- What the report lists and answers is what its usages say, and they have the exports of the units
that are flagged as used from outside among the used ones only. -/
structure ViewsAgree (p : Program) : Prop where
  usedExports : p.eliminate.usedExports = p.eliminate.listed (·.used)
  unusedExports : p.eliminate.unusedExports = p.eliminate.listed (·.unused)
  isUsed : ∀ id symbol, p.eliminate.isUsed id symbol = true
    ↔ ∃ usage, p.eliminate.units[id]? = some usage ∧ symbol ∈ usage.used
  flagged : ∀ u ∈ p.units, u.isEntryPoint = true → ∀ symbol ∈ u.exports,
    ∃ usage, p.eliminate.units[u.id]? = some usage ∧ symbol ∈ usage.used ∧ symbol ∉ usage.unused

/-- The exports of a unit are parted. -/
lemma mem_exports_iff : symbol ∈ u.exports
    ↔ symbol ∈ (p.usageOf u).used ∨ symbol ∈ (p.usageOf u).unused := by
  rw [usageOf, Names.mem_filter, Names.mem_filter, ← and_or_left, Bool.not_eq_true']
  exact (and_iff_left (Bool.eq_false_or_eq_true _)).symm

/-- All exports of a unit that is used from outside are used if it is the last of its name. -/
lemma mem_used_of_mem_lasting (h : u ∈ lasting p.units) (hroot : p.Root u.id)
    (hsymbol : symbol ∈ u.exports) :
    symbol ∈ (p.usageOf u).used ∧ symbol ∉ (p.usageOf u).unused := by
  have hused : p.used p.imports p.reachable u.id = u.exports := by
    simp only [used, unit?_of_mem_lasting h, if_pos (mem_roots.2 hroot)]
  rw [usageOf, Names.mem_filter, Names.mem_filter, hused, Std.TreeSet.contains_iff_mem.2 hsymbol]
  exact ⟨⟨hsymbol, rfl⟩, fun hunused => Bool.noConfusion hunused.2⟩

/-- **The parts of a report agree exactly if the overtaken units export nothing.**  A unit is
overtaken if a later one has its name; then what it exports is listed, but it is not among the usages
of the report, and may be listed as unused although the unit is flagged as used from outside. -/
theorem viewsAgree_iff (p : Program) :
    p.ViewsAgree ↔ ∀ u ∈ overtaken p.units, ∀ symbol, symbol ∉ u.exports := by
  constructor
  · intro h u hu symbol hsymbol
    obtain hused | hunused := mem_exports_iff.1 hsymbol
    · exact (listing_eq_listed_iff p (·.used)).1 h.usedExports u hu symbol hused
    · exact (listing_eq_listed_iff p (·.unused)).1 h.unusedExports u hu symbol hunused
  · intro h
    refine ⟨?_, ?_, ?_, ?_⟩
    · exact (listing_eq_listed_iff p (·.used)).2 fun u hu symbol hused =>
        h u hu symbol (mem_exports_iff.2 (.inl hused))
    · exact (listing_eq_listed_iff p (·.unused)).2 fun u hu symbol hunused =>
        h u hu symbol (mem_exports_iff.2 (.inr hunused))
    · intro id symbol
      simp only [EliminationReport.isUsed, Option.any_eq_true, Std.TreeSet.contains_iff_mem]
    · intro u hu hflag symbol hsymbol
      have hlasting : u ∈ lasting p.units := by
        have hparts := (perm_overtaken_append_lasting p.units).mem_iff.2 hu
        exact (List.mem_append.1 hparts).resolve_left fun hover => h u hover symbol hsymbol
      exact ⟨_, getElem?_units_of_mem_lasting hlasting,
        mem_used_of_mem_lasting hlasting (.inl ⟨u, hu, hflag, rfl⟩) hsymbol⟩

/-- Two units of one name; the first is used from outside. -/
def repeated : Program where
  units := [CompileUnit.withExports { id := "a", isEntryPoint := true } ["x"],
    CompileUnit.withExports { id := "a" } ["y"]]
  entryPoints := []

/-- The export of the flagged unit is listed as unused, and no usage has it. -/
theorem not_viewsAgree_repeated : repeated.eliminate.unusedExports = ["a:x"]
    ∧ repeated.eliminate.listed (·.unused) = [] ∧ ¬repeated.ViewsAgree := by
  have hunused : repeated.eliminate.unusedExports = ["a:x"] := by decide +kernel
  have hlisted : repeated.eliminate.listed (·.unused) = [] := by decide +kernel
  refine ⟨hunused, hlisted, fun h => ?_⟩
  have hagree := h.unusedExports
  rw [hunused, hlisted] at hagree
  cases hagree

end Program
end Rebuild
