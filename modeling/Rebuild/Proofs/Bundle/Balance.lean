import Mathlib.Algebra.BigOperators.Group.List.Basic
import Mathlib.Algebra.GroupWithZero.Nat
import Mathlib.Algebra.Order.BigOperators.Group.List
import Mathlib.Data.List.Basic
import Mathlib.Data.List.Perm.Basic
import Mathlib.Data.String.Basic
import Rebuild.Bundle.Report
import Rebuild.Proofs.Imports.Packages
import Rebuild.Proofs.Path.Table
import Rebuild.Proofs.Sorting

/-!
# A report balances

A report counts the same artifacts along three ways: by unit, by package and in the treemap.

* **Groups.**  `exists_groups_eq`: there is a group for each unit that has artifacts, which holds these
  in their order.  Together the groups hold every artifact once, so that their weights add up
  (`sum_membersOf`).
* **Uses.**  `exists_values_eq`: a package is counted once for each artifact that refers to it.
* **Orders.**  All three lists are sorted by falling numbers and then by name.  That is strict for units
  and packages, as no two of them have the same name.
* **Endpoint.**  `report_balances`, from one structure for each of the three ways.
-/

namespace Rebuild

/-! ## Parts of a list -/

/-- A table whose values are told by its keys is told by its keys. -/
lemma toList_eq_map_keys {β : Type} {m : Std.TreeMap String β compare} {f : String → β}
    (h : ∀ k v, m[k]? = some v → v = f k) : m.toList = m.keys.map fun k => (k, f k) := by
  rw [← Std.TreeMap.map_fst_toList_eq_keys, List.map_map]
  refine (List.map_id _).symm.trans (List.map_congr_left fun ⟨k, v⟩ hkv => ?_)
  rw [h k v (Std.TreeMap.mem_toList_iff_getElem?_eq_some.1 hkv)]
  rfl

section

variable {α β : Type} [DecidableEq β] {f : α → β}

/-- The parts of a list that have the same value hold it together. -/
lemma flatMap_filter_perm {ks : List β} (hks : ks.Nodup) {xs : List α} (h : ∀ x ∈ xs, f x ∈ ks) :
    (ks.flatMap fun k => xs.filter (f · = k)).Perm xs := by
  induction ks generalizing xs with
  | nil =>
      cases xs with
      | nil => rfl
      | cons x xs => exact absurd (h x List.mem_cons_self) List.not_mem_nil
  | cons k ks ih =>
      rw [List.nodup_cons] at hks
      have hothers : (ks.flatMap fun k' => xs.filter (f · = k'))
          = ks.flatMap fun k' => (xs.filter (f · ≠ k)).filter (f · = k') := by
        refine List.flatMap_congr fun k' hk' => ?_
        have hne : k' ≠ k := fun heq => hks.1 (heq ▸ hk')
        rw [List.filter_filter]
        refine List.filter_congr fun x _ => ?_
        by_cases hx : f x = k' <;> simp [hx, hne]
      have hrest : ∀ x ∈ xs.filter (f · ≠ k), f x ∈ ks := by
        intro x hx
        obtain ⟨hx, hne⟩ := List.mem_filter.1 hx
        exact (List.mem_cons.1 (h x hx)).resolve_left (by simpa using hne)
      rw [List.flatMap_cons, hothers]
      refine ((ih hks.2 hrest).append_left _).trans ?_
      simpa using List.filter_append_perm (f · = k) xs

end

namespace BundleReport

/-! ## Orders -/

/-- By a falling number, and then by another order. -/
local instance {α : Type} {f : α → Nat} {cmp : α → α → Ordering} [Std.TransCmp cmp] :
    Std.TransCmp fun a b => (compare (f b) (f a)).then (cmp a b) :=
  inferInstanceAs (Std.TransCmp (compareLex (fun a b => compareOn f b a) cmp))

lemma then_eq_lt_iff {m n : Nat} {o : Ordering} :
    (compare n m).then o = .lt ↔ n < m ∨ (m = n ∧ o = .lt) := by
  rw [Ordering.then_eq_lt, Nat.compare_eq_lt, Nat.compare_eq_eq]
  exact or_congr_right (and_congr_left' eq_comm)

lemma isLE_then_iff {m n : Nat} {o : Ordering} :
    ((compare n m).then o).isLE = true ↔ n < m ∨ (m = n ∧ o.isLE = true) := by
  rw [Ordering.isLE_then_iff_or, Nat.compare_eq_lt, Nat.compare_eq_eq]
  exact or_congr_right (and_congr_left' eq_comm)

variable {known : Option (List String)} {measure : String → Nat} {artifacts : List Artifact}
  {a : Artifact} {id name : String} {members : List Artifact}

/-! ## Groups -/

/-- The unit of an artifact. -/
def ownerOf (known : Option (List String)) (a : Artifact) : String :=
  match known with
  | some ids => Artifact.knownUnit a.path ids
  | none => Artifact.unitOf a.path

/-- The artifacts of a unit. -/
def membersOf (known : Option (List String)) (artifacts : List Artifact) (id : String) :
    List Artifact :=
  artifacts.filter (ownerOf known · = id)

/-- The groups with one more artifact. -/
def withArtifact (known : Option (List String)) (g : Groups) (a : Artifact) : Groups :=
  g.insert (ownerOf known a) (g.getD (ownerOf known a) [] ++ [a])

lemma groups_eq (known : Option (List String)) (artifacts : List Artifact) :
    groups known artifacts = artifacts.foldl (withArtifact known) ∅ := rfl

lemma getD_foldl_withArtifact (known : Option (List String)) (artifacts : List Artifact) (id : String)
    (g : Groups) :
    (artifacts.foldl (withArtifact known) g).getD id [] = g.getD id [] ++ membersOf known artifacts id := by
  induction artifacts generalizing g with
  | nil => simp [membersOf]
  | cons a artifacts ih =>
      rw [List.foldl_cons, ih, withArtifact, Std.TreeMap.getD_insert, membersOf, membersOf,
        List.filter_cons]
      by_cases h : ownerOf known a = id
      · simp [h]
      · simp [h]

lemma mem_foldl_withArtifact (g : Groups) :
    id ∈ artifacts.foldl (withArtifact known) g ↔ id ∈ g ∨ ∃ a ∈ artifacts, ownerOf known a = id := by
  induction artifacts generalizing g with
  | nil => simp
  | cons a artifacts ih =>
      rw [List.foldl_cons, ih, withArtifact, Std.TreeMap.mem_insert, Std.LawfulEqCmp.compare_eq_iff_eq,
        List.exists_mem_cons_iff]
      tauto

/-- There is a group for each unit that has artifacts, in the order of names, and it holds these. -/
lemma exists_groups_eq (known : Option (List String)) (artifacts : List Artifact) :
    ∃ ids : List String, ids.Nodup ∧ (∀ id, id ∈ ids ↔ ∃ a ∈ artifacts, ownerOf known a = id)
      ∧ (groups known artifacts).toList = ids.map fun id => (id, membersOf known artifacts id) := by
  refine ⟨(groups known artifacts).keys, nodup_of_pairwise_lt Std.TreeMap.ordered_keys, fun id => ?_, ?_⟩
  · rw [Std.TreeMap.mem_keys, groups_eq, mem_foldl_withArtifact]
    simp
  · refine toList_eq_map_keys fun id members h => ?_
    have hmembers := getD_foldl_withArtifact known artifacts id ∅
    rw [← groups_eq, Std.TreeMap.getD_eq_getD_getElem?, h] at hmembers
    simpa using hmembers

/-- Together the groups hold every artifact once, so that their weights add up. -/
lemma sum_membersOf {ids : List String} (hids : ids.Nodup)
    (h : ∀ id, id ∈ ids ↔ ∃ a ∈ artifacts, ownerOf known a = id) (weight : Artifact → Nat) :
    (ids.map fun id => ((membersOf known artifacts id).map weight).sum).sum
      = (artifacts.map weight).sum := by
  have hperm := flatMap_filter_perm (f := ownerOf known) hids fun a ha => (h _).2 ⟨a, ha, rfl⟩
  rw [← (hperm.map weight).sum_eq, List.flatMap_def, List.map_flatten, List.sum_flatten, List.map_map,
    List.map_map]
  rfl

/-! ## Packages -/

/-- The packages that were met, by name. -/
abbrev Uses := Std.TreeMap String PackageUse compare

/-- The artifacts that refer to a package. -/
def referrers (artifacts : List Artifact) (name : String) : List Artifact :=
  artifacts.filter (name ∈ Imports.packages ·.content)

/-- Who refers to a package. -/
def useOf (artifacts : List Artifact) (name : String) : PackageUse where
  name
  references := (referrers artifacts name).length
  size := ((referrers artifacts name).map Artifact.size).sum

/-- A package that one more artifact refers to. -/
def countingUse (a : Artifact) (use : PackageUse) : PackageUse :=
  { use with references := use.references + 1, size := use.size + a.size }

/-- The packages after a reference to one of them. -/
def withUse (a : Artifact) (uses : Uses) (name : String) : Uses :=
  uses.insert name (countingUse a (uses.getD name ⟨name, 0, 0⟩))

/-- The packages after those of an artifact. -/
def withUses (uses : Uses) (a : Artifact) : Uses := (Imports.packages a.content).foldl (withUse a) uses

lemma packageUses_eq (artifacts : List Artifact) : packageUses artifacts
    = (artifacts.foldl withUses ∅).values.mergeSort PackageUse.comesFirst := rfl

lemma nodup_packages (content : String) : (Imports.packages content).Nodup :=
  nodup_of_pairwise_lt (Imports.refers_packages content).sorted

lemma getD_foldl_withUse {names : List String} (hnames : names.Nodup) (uses : Uses) :
    (names.foldl (withUse a) uses).getD name ⟨name, 0, 0⟩
      = if name ∈ names then countingUse a (uses.getD name ⟨name, 0, 0⟩)
        else uses.getD name ⟨name, 0, 0⟩ := by
  induction names generalizing uses with
  | nil => simp
  | cons n names ih =>
      rw [List.nodup_cons] at hnames
      rw [List.foldl_cons, ih hnames.2, withUse, Std.TreeMap.getD_insert]
      simp only [Std.LawfulEqCmp.compare_eq_iff_eq]
      by_cases h : n = name
      · subst h
        simp [hnames.1]
      · simp [h, Ne.symm h]

lemma mem_foldl_withUse {names : List String} (uses : Uses) :
    name ∈ names.foldl (withUse a) uses ↔ name ∈ uses ∨ name ∈ names := by
  induction names generalizing uses with
  | nil => simp
  | cons n names ih =>
      rw [List.foldl_cons, ih, withUse, Std.TreeMap.mem_insert, Std.LawfulEqCmp.compare_eq_iff_eq,
        List.mem_cons, eq_comm]
      tauto

/-- A package is counted once for each artifact that refers to it. -/
lemma getD_foldl_withUses (artifacts : List Artifact) (name : String) (uses : Uses) :
    (artifacts.foldl withUses uses).getD name ⟨name, 0, 0⟩
      = { name := (uses.getD name ⟨name, 0, 0⟩).name
          references := (uses.getD name ⟨name, 0, 0⟩).references + (referrers artifacts name).length
          size := (uses.getD name ⟨name, 0, 0⟩).size
            + ((referrers artifacts name).map Artifact.size).sum } := by
  induction artifacts generalizing uses with
  | nil => simp [referrers]
  | cons a artifacts ih =>
      rw [List.foldl_cons, ih, withUses, getD_foldl_withUse (nodup_packages _), referrers, referrers,
        List.filter_cons]
      by_cases h : name ∈ Imports.packages a.content
      · simp [h, countingUse]
        omega
      · simp [h]

lemma mem_foldl_withUses (uses : Uses) :
    name ∈ artifacts.foldl withUses uses
      ↔ name ∈ uses ∨ ∃ a ∈ artifacts, name ∈ Imports.packages a.content := by
  induction artifacts generalizing uses with
  | nil => simp
  | cons a artifacts ih =>
      rw [List.foldl_cons, ih, withUses, mem_foldl_withUse, List.exists_mem_cons_iff, or_assoc]

/-- There is a package for each name that is referred to, in the order of names. -/
lemma exists_values_eq (artifacts : List Artifact) :
    ∃ names : List String, names.Nodup
      ∧ (∀ name, name ∈ names ↔ ∃ a ∈ artifacts, name ∈ Imports.packages a.content)
      ∧ (artifacts.foldl withUses ∅).values = names.map (useOf artifacts) := by
  refine ⟨(artifacts.foldl withUses ∅).keys, nodup_of_pairwise_lt Std.TreeMap.ordered_keys,
    fun name => ?_, ?_⟩
  · rw [Std.TreeMap.mem_keys, mem_foldl_withUses]
    simp
  · rw [PathMap.values_eq, toList_eq_map_keys (f := useOf artifacts), List.map_map]
    · rfl
    · intro name use h
      have huse := getD_foldl_withUses artifacts name ∅
      rw [Std.TreeMap.getD_eq_getD_getElem?, h] at huse
      simpa [useOf] using huse

/-! ## Units -/

/-- What a unit weighs. -/
def unitSize (measure : String → Nat) (known : Option (List String)) (artifacts : List Artifact)
    (id : String) : UnitSize := .ofArtifacts measure id (membersOf known artifacts id)

lemma units_eq (measure : String → Nat) {ids : List String}
    (h : (groups known artifacts).toList = ids.map fun id => (id, membersOf known artifacts id)) :
    (ofArtifacts measure known artifacts).units
      = (ids.map (unitSize measure known artifacts)).mergeSort UnitSize.comesFirst := by
  simp only [ofArtifacts, h, List.map_map]
  rfl

lemma pairwise_units {ids : List String} (hids : ids.Nodup) :
    ((ids.map (unitSize measure known artifacts)).mergeSort UnitSize.comesFirst).Pairwise
      fun u v => v.size < u.size ∨ (u.size = v.size ∧ u.id < v.id) := by
  have hdistinct : (ids.map (unitSize measure known artifacts)).Pairwise fun u v =>
      (compare v.size u.size).then (compare u.id v.id) ≠ .eq := by
    rw [List.pairwise_map]
    refine hids.imp fun hne heq => hne ?_
    exact Std.LawfulEqOrd.eq_of_compare (Ordering.then_eq_eq.1 heq).2
  have hsorted := pairwise_mergeSort_lt (fun u v : UnitSize =>
    (compare v.size u.size).then (compareOn UnitSize.id u v)) hdistinct
  refine hsorted.imp fun h => ?_
  exact (then_eq_lt_iff.1 h).imp_right fun ⟨hsize, hid⟩ => ⟨hsize, compare_lt_iff_lt.1 hid⟩

/-- The artifacts of a unit, and those that refer to a package, weigh no more than all. -/
lemma sum_filter_le (p : Artifact → Bool) (artifacts : List Artifact) :
    ((artifacts.filter p).map Artifact.size).sum ≤ (artifacts.map Artifact.size).sum :=
  (List.filter_sublist.map Artifact.size).sum_le_sum fun _ _ => Nat.zero_le _

/-- The units of a report hold the artifacts, each in one unit, and weigh together what these weigh. -/
structure CountsUnits (known : Option (List String)) (measure : String → Nat) (artifacts : List Artifact)
    (r : BundleReport) : Prop where
  totalSize : r.totalSize = (artifacts.map Artifact.size).sum
  totalGzipSize : r.totalGzipSize = (artifacts.map fun a => measure a.content).sum
  /-- Every artifact belongs to one unit and to no other. -/
  owner : ∀ a ∈ artifacts, ∃! u, u ∈ r.units ∧ u.id = ownerOf known a
  /-- A unit has the artifacts that belong to it, in their order. -/
  files : ∀ u ∈ r.units, u.files = (membersOf known artifacts u.id).map Artifact.path ∧ u.files ≠ []
  /-- No artifact is counted twice. -/
  allFiles : (r.units.flatMap UnitSize.files).Perm (artifacts.map Artifact.path)
  size : ∀ u ∈ r.units, u.size = ((membersOf known artifacts u.id).map Artifact.size).sum
  gzipSize : ∀ u ∈ r.units,
    u.gzipSize = ((membersOf known artifacts u.id).map fun a => measure a.content).sum
  sum_size : (r.units.map UnitSize.size).sum = r.totalSize
  sum_gzipSize : (r.units.map UnitSize.gzipSize).sum = r.totalGzipSize
  size_le : ∀ u ∈ r.units, u.size ≤ r.totalSize
  ordered : r.units.Pairwise fun u v => v.size < u.size ∨ (u.size = v.size ∧ u.id < v.id)

lemma countsUnits (measure : String → Nat) (known : Option (List String)) (artifacts : List Artifact) :
    CountsUnits known measure artifacts (ofArtifacts measure known artifacts) := by
  obtain ⟨ids, hids, hmem, hgroups⟩ := exists_groups_eq known artifacts
  have hunits := units_eq measure hgroups
  have hunit : ∀ u ∈ (ofArtifacts measure known artifacts).units,
      u.id ∈ ids ∧ u = unitSize measure known artifacts u.id := by
    intro u hu
    rw [hunits, List.mem_mergeSort] at hu
    obtain ⟨id, hid, rfl⟩ := List.mem_map.1 hu
    exact ⟨hid, rfl⟩
  have hsum : ∀ weight : UnitSize → Nat, ((ofArtifacts measure known artifacts).units.map weight).sum
      = (ids.map fun id => weight (unitSize measure known artifacts id)).sum := by
    intro weight
    rw [hunits, ((List.mergeSort_perm _ _).map weight).sum_eq, List.map_map]
    rfl
  refine ⟨rfl, rfl, ?owner, ?files, ?allFiles, fun u hu => congrArg UnitSize.size (hunit u hu).2,
    fun u hu => congrArg UnitSize.gzipSize (hunit u hu).2,
    (hsum UnitSize.size).trans (sum_membersOf hids hmem Artifact.size),
    (hsum UnitSize.gzipSize).trans (sum_membersOf hids hmem fun a => measure a.content),
    ?size_le, hunits ▸ pairwise_units hids⟩
  case owner =>
    intro a ha
    refine ⟨unitSize measure known artifacts (ownerOf known a), ⟨?_, rfl⟩, ?_⟩
    · rw [hunits, List.mem_mergeSort]
      exact List.mem_map_of_mem ((hmem _).2 ⟨a, ha, rfl⟩)
    · rintro u ⟨hu, hid⟩
      rw [(hunit u hu).2, hid]
  case files =>
    intro u hu
    obtain ⟨hid, heq⟩ := hunit u hu
    obtain ⟨a, ha, howner⟩ := (hmem _).1 hid
    have hmember : a ∈ membersOf known artifacts u.id := List.mem_filter.2 ⟨ha, by simpa using howner⟩
    have hfiles : u.files = (membersOf known artifacts u.id).map Artifact.path :=
      congrArg UnitSize.files heq
    refine ⟨hfiles, ?_⟩
    rw [hfiles]
    exact List.ne_nil_of_mem (List.mem_map_of_mem hmember)
  case allFiles =>
    have hperm := flatMap_filter_perm (f := ownerOf known) hids fun a ha => (hmem _).2 ⟨a, ha, rfl⟩
    rw [hunits]
    refine ((List.mergeSort_perm _ _).flatMap_right _).trans ?_
    rw [List.flatMap_map]
    refine List.Perm.trans ?_ (hperm.map Artifact.path)
    rw [List.map_flatMap]
    rfl
  case size_le =>
    intro u hu
    rw [(hunit u hu).2]
    exact sum_filter_le _ artifacts

/-! ## Packages counted -/

lemma pairwise_packages {names : List String} (hnames : names.Nodup) {use : String → PackageUse}
    (huse : ∀ name, (use name).name = name) :
    ((names.map use).mergeSort PackageUse.comesFirst).Pairwise fun d e =>
      e.references < d.references ∨ (d.references = e.references
        ∧ (e.size < d.size ∨ (d.size = e.size ∧ d.name < e.name))) := by
  have hdistinct : (names.map use).Pairwise fun d e => (compare e.references d.references).then
      ((compare e.size d.size).then (compare d.name e.name)) ≠ .eq := by
    rw [List.pairwise_map]
    refine hnames.imp fun hne heq => hne ?_
    rw [Ordering.then_eq_eq, Ordering.then_eq_eq, huse, huse] at heq
    exact Std.LawfulEqOrd.eq_of_compare heq.2.2
  have hsorted := pairwise_mergeSort_lt (fun d e : PackageUse => (compare e.references d.references).then
    ((compare e.size d.size).then (compareOn PackageUse.name d e))) hdistinct
  refine hsorted.imp fun h => ?_
  refine (then_eq_lt_iff.1 h).imp_right fun ⟨hreferences, h⟩ => ⟨hreferences, ?_⟩
  exact (then_eq_lt_iff.1 h).imp_right fun ⟨hsize, hname⟩ => ⟨hsize, compare_lt_iff_lt.1 hname⟩

/-- The packages of a report are those that artifacts refer to, each with the artifacts that do. -/
structure CountsPackages (artifacts : List Artifact) (r : BundleReport) : Prop where
  package : ∀ name, (∃ d ∈ r.packages, d.name = name) ↔
    ∃ a ∈ artifacts, name ∈ Imports.packages a.content
  references : ∀ d ∈ r.packages, d.references = (referrers artifacts d.name).length
  size : ∀ d ∈ r.packages, d.size = ((referrers artifacts d.name).map Artifact.size).sum
  size_le : ∀ d ∈ r.packages, d.size ≤ r.totalSize
  ordered : r.packages.Pairwise fun d e => e.references < d.references ∨ (d.references = e.references
    ∧ (e.size < d.size ∨ (d.size = e.size ∧ d.name < e.name)))

lemma countsPackages (measure : String → Nat) (known : Option (List String)) (artifacts : List Artifact) :
    CountsPackages artifacts (ofArtifacts measure known artifacts) := by
  obtain ⟨names, hnames, hreferred, hvalues⟩ := exists_values_eq artifacts
  have hpackages : (ofArtifacts measure known artifacts).packages
      = (names.map (useOf artifacts)).mergeSort PackageUse.comesFirst := by
    rw [← hvalues]
    exact packageUses_eq artifacts
  have hpackage : ∀ d ∈ (ofArtifacts measure known artifacts).packages, d = useOf artifacts d.name := by
    intro d hd
    rw [hpackages, List.mem_mergeSort] at hd
    obtain ⟨name, -, rfl⟩ := List.mem_map.1 hd
    rfl
  refine ⟨?package, fun d hd => congrArg PackageUse.references (hpackage d hd),
    fun d hd => congrArg PackageUse.size (hpackage d hd), ?size_le,
    hpackages ▸ pairwise_packages hnames fun _ => rfl⟩
  case package =>
    intro name
    rw [hpackages, ← hreferred]
    simp [useOf]
  case size_le =>
    intro d hd
    rw [hpackage d hd]
    exact sum_filter_le _ artifacts

/-! ## The treemap -/

/-- The artifacts of a unit as leaves of a treemap. -/
def leavesOf (members : List Artifact) : List Treemap := members.map fun a => .leaf a.path.text a.size

/-- A unit in the treemap. -/
def branchOf (known : Option (List String)) (artifacts : List Artifact) (id : String) : Treemap :=
  .branch id (leavesOf (membersOf known artifacts id))

/-- The order of names with sizes: by falling size, then by name. -/
def namedFirst (a b : String × Nat) : Bool := ((compare b.2 a.2).then (compare a.1 b.1)).isLE

lemma treemap_eq (measure : String → Nat) {ids : List String}
    (h : (groups known artifacts).toList = ids.map fun id => (id, membersOf known artifacts id)) :
    (ofArtifacts measure known artifacts).treemap
      = .branch "bundle" (ids.map (branchOf known artifacts)) := by
  simp only [ofArtifacts, treemapOf, h, List.map_map]
  rfl

lemma size_branchOf (measure : String → Nat) (id : String) :
    (branchOf known artifacts id).size = (unitSize measure known artifacts id).size := by
  simp only [branchOf, Treemap.branch, Treemap.size, unitSize, UnitSize.ofArtifacts, leavesOf,
    List.map_map]
  rfl

/-- Units and branches come in the same order. -/
lemma map_branches_eq (measure : String → Nat) (ids : List String) :
    ((ids.map (branchOf known artifacts)).mergeSort Treemap.comesFirst).map (fun t => (t.name, t.size))
      = ((ids.map (unitSize measure known artifacts)).mergeSort UnitSize.comesFirst).map
        fun u => (u.id, u.size) := by
  have hbranches : ∀ ts : List Treemap, (ts.mergeSort Treemap.comesFirst).map (fun t => (t.name, t.size))
      = (ts.map fun t => (t.name, t.size)).mergeSort namedFirst :=
    fun _ => List.map_mergeSort fun _ _ _ _ => rfl
  have hunits : ∀ us : List UnitSize, (us.mergeSort UnitSize.comesFirst).map (fun u => (u.id, u.size))
      = (us.map fun u => (u.id, u.size)).mergeSort namedFirst :=
    fun _ => List.map_mergeSort fun _ _ _ _ => rfl
  rw [hbranches, hunits, List.map_map, List.map_map]
  congr 1
  refine List.map_congr_left fun id _ => ?_
  simp only [Function.comp_apply, size_branchOf measure]
  rfl

lemma pairwise_leaves (members : List Artifact) :
    ((leavesOf members).mergeSort Treemap.comesFirst).Pairwise
      fun a b => b.size < a.size ∨ (a.size = b.size ∧ a.name ≤ b.name) := by
  have hsorted := @pairwise_mergeSort _ (fun a b : Treemap =>
    (compare b.size a.size).then (compareOn Treemap.name a b)) _ (leavesOf members)
  refine hsorted.imp fun h => ?_
  exact (isLE_then_iff.1 h).imp_right fun ⟨hsize, hname⟩ => ⟨hsize,
    compare_le_iff_le.1 (Ordering.ne_gt_iff_isLE.2 hname)⟩

/-- The treemap of a report shows its units, and in each of them its artifacts. -/
structure ShowsUnits (known : Option (List String)) (artifacts : List Artifact) (r : BundleReport) :
    Prop where
  size : r.treemap.size = r.totalSize
  children : r.treemap.children.map (fun t => (t.name, t.size)) = r.units.map fun u => (u.id, u.size)
  leaves : ∀ t ∈ r.treemap.children, t.children.Perm (leavesOf (membersOf known artifacts t.name))
  ordered : ∀ t ∈ r.treemap.children,
    t.children.Pairwise fun a b => b.size < a.size ∨ (a.size = b.size ∧ a.name ≤ b.name)

lemma showsUnits (measure : String → Nat) (known : Option (List String)) (artifacts : List Artifact) :
    ShowsUnits known artifacts (ofArtifacts measure known artifacts) := by
  obtain ⟨ids, hids, hmem, hgroups⟩ := exists_groups_eq known artifacts
  have htreemap := treemap_eq measure hgroups
  have hbranch : ∀ t ∈ (ofArtifacts measure known artifacts).treemap.children,
      ∃ id, t = branchOf known artifacts id := by
    intro t ht
    rw [htreemap, Treemap.branch, Treemap.children, List.mem_mergeSort] at ht
    obtain ⟨id, -, rfl⟩ := List.mem_map.1 ht
    exact ⟨id, rfl⟩
  refine ⟨?size, ?sameOrder, ?leaves, ?ordered⟩
  case size =>
    rw [htreemap, Treemap.branch, Treemap.size, List.map_map]
    refine Eq.trans ?_ (sum_membersOf hids hmem Artifact.size)
    exact congrArg List.sum (List.map_congr_left fun id _ => size_branchOf measure id)
  case sameOrder =>
    rw [htreemap, units_eq measure hgroups]
    exact map_branches_eq measure ids
  case leaves =>
    intro t ht
    obtain ⟨id, rfl⟩ := hbranch t ht
    exact List.mergeSort_perm _ _
  case ordered =>
    intro t ht
    obtain ⟨id, rfl⟩ := hbranch t ht
    exact pairwise_leaves _

/-! ## The report -/

/-- **A report balances**: its units, its packages and its treemap count the same artifacts. -/
theorem report_balances (measure : String → Nat) (known : Option (List String)) (artifacts : List Artifact) :
    CountsUnits known measure artifacts (ofArtifacts measure known artifacts)
    ∧ CountsPackages artifacts (ofArtifacts measure known artifacts)
    ∧ ShowsUnits known artifacts (ofArtifacts measure known artifacts) :=
  ⟨countsUnits measure known artifacts, countsPackages measure known artifacts,
    showsUnits measure known artifacts⟩

end BundleReport
end Rebuild
