import Mathlib.Logic.Relation
import Mathlib.Tactic.Common
import Rebuild.Graph.Basic
import Rebuild.Proofs.Graph.Search
import Rebuild.Proofs.Path.Table

/-!
# Edges of the graph

Every operation of the graph is described by what it does to the two relations `Needs` and
`NeededBy`, which read the forward and the reverse edges.

* **One edge.**  `dropEdge` and `addEdge` touch the reverse edges only, and one of them each.
* **One file.**  `needs_setDependencies` and `needs_remove` say which forward edges there are
  afterwards; nothing else about the history of the graph is left.
* **Both directions.**  `InStep` is kept by every operation, and holds of whatever `ofNodes` makes.
* **Closure.**  `among_affected` is what `InStep` is for: `Graph.affected` walks over reverse edges,
  and finds everything that needs a changed file along forward edges, and nothing else.
-/

namespace Rebuild.Graph

/-- The file `p` needs `q`, as `p` has it. -/
def Needs (g : Graph) (p q : Path) : Prop := ∃ n, g.node? p = some n ∧ q ∈ n.dependencies

/-- The file `q` is needed by `p`, as `q` has it. -/
def NeededBy (g : Graph) (q p : Path) : Prop := ∃ n, g.node? q = some n ∧ p ∈ n.dependents

/-- Every edge is known at both its ends. -/
def InStep (g : Graph) : Prop := ∀ p q, g.Needs p q ↔ g.NeededBy q p

/-! ## Spellings and lists -/

lemma node?_congr (g : Graph) {p q : Path} (h : compare p q = .eq) : g.node? p = g.node? q :=
  PathMap.getElem?_congr g.nodes h

lemma needs_congr (g : Graph) {p p' q q' : Path} (hp : compare p p' = .eq)
    (hq : compare q q' = .eq) : g.Needs p q ↔ g.Needs p' q' := by
  rw [Needs]
  rw [node?_congr g hp]
  exact exists_congr fun n => and_congr_right fun _ => PathSet.mem_congr _ hq

lemma neededBy_congr (g : Graph) {p p' q q' : Path} (hp : compare p p' = .eq)
    (hq : compare q q' = .eq) : g.NeededBy p q ↔ g.NeededBy p' q' := by
  rw [NeededBy]
  rw [node?_congr g hp]
  exact exists_congr fun n => and_congr_right fun _ => PathSet.mem_congr _ hq

/-- The list of dependencies has a spelling of each file that is needed. -/
lemma needs_iff_dependencies {g : Graph} {p q : Path} :
    g.Needs p q ↔ ∃ d ∈ g.dependencies p, compare d q = .eq := by
  rw [Needs, dependencies]
  cases g.node? p with
  | none => simp
  | some n => simp [PathSet.mem_iff_toList]

/-- The list of dependents has a spelling of each file that needs this one. -/
lemma neededBy_iff_dependents {g : Graph} {p q : Path} :
    g.NeededBy q p ↔ ∃ d ∈ g.dependents q, compare d p = .eq := by
  rw [NeededBy, dependents]
  cases g.node? q with
  | none => simp
  | some n => simp [PathSet.mem_iff_toList]

/-! ## Nodes -/

lemma node?_ensure (g : Graph) (a p : Path) :
    (g.ensure a).node? p
      = if compare a p = .eq ∧ g.node? a = none then some { path := a } else g.node? p :=
  PathMap.getElem?_ensure g.nodes a p _

lemma node?_adjust (g : Graph) (a p : Path) (f : GraphNode → GraphNode) :
    (g.adjust a f).node? p = if compare a p = .eq then (g.node? p).map f else g.node? p :=
  PathMap.getElem?_adjust g.nodes a p f

lemma node?_pruneOrphan (g : Graph) (a p : Path) :
    (g.pruneOrphan a).node? p
      = if compare a p = .eq ∧ (g.node? a).any isOrphan then none else g.node? p := by
  rw [pruneOrphan]
  cases ha : g.node? a with
  | none => simp
  | some n =>
      by_cases ho : isOrphan n = true
      · simp only [ho, if_true, Option.any_some, and_true]
        exact Std.TreeMap.getElem?_erase
      · simp [ho]

/-! ## Both relations under each operation -/

@[simp] lemma needs_ensure {g : Graph} {a p q : Path} : (g.ensure a).Needs p q ↔ g.Needs p q := by
  simp only [Needs]
  rw [node?_ensure]
  split_ifs with h
  · simp [← node?_congr g h.1, h.2]
  · rfl

@[simp] lemma neededBy_ensure {g : Graph} {a p q : Path} :
    (g.ensure a).NeededBy q p ↔ g.NeededBy q p := by
  simp only [NeededBy]
  rw [node?_ensure]
  split_ifs with h
  · simp [← node?_congr g h.1, h.2]
  · rfl

/-- A change that leaves the forward edges of a node alone. -/
lemma needs_adjust {g : Graph} {a p q : Path} {f : GraphNode → GraphNode}
    (hf : ∀ n, (f n).dependencies = n.dependencies) : (g.adjust a f).Needs p q ↔ g.Needs p q := by
  simp only [Needs]
  rw [node?_adjust]
  split_ifs
  · cases g.node? p <;> simp [hf]
  · rfl

/-- A change that leaves the reverse edges of a node alone. -/
lemma neededBy_adjust {g : Graph} {a p q : Path} {f : GraphNode → GraphNode}
    (hf : ∀ n, (f n).dependents = n.dependents) : (g.adjust a f).NeededBy q p ↔ g.NeededBy q p := by
  simp only [NeededBy]
  rw [node?_adjust]
  split_ifs
  · cases g.node? q <;> simp [hf]
  · rfl

/-- An orphan has no forward edges that could be lost. -/
@[simp] lemma needs_pruneOrphan {g : Graph} {a p q : Path} :
    (g.pruneOrphan a).Needs p q ↔ g.Needs p q := by
  simp only [Needs]
  rw [node?_pruneOrphan]
  split_ifs with h
  · obtain ⟨ha, ho⟩ := h
    rw [node?_congr g ha] at ho
    cases hp : g.node? p with
    | none => simp
    | some n =>
        simp only [hp, Option.any_some, isOrphan, Bool.and_eq_true] at ho
        simpa using Std.TreeSet.not_mem_of_isEmpty ho.1.2
  · rfl

/-- An orphan has no reverse edges that could be lost. -/
@[simp] lemma neededBy_pruneOrphan {g : Graph} {a p q : Path} :
    (g.pruneOrphan a).NeededBy q p ↔ g.NeededBy q p := by
  simp only [NeededBy]
  rw [node?_pruneOrphan]
  split_ifs with h
  · obtain ⟨ha, ho⟩ := h
    rw [node?_congr g ha] at ho
    cases hq : g.node? q with
    | none => simp
    | some n =>
        simp only [hq, Option.any_some, isOrphan, Bool.and_eq_true] at ho
        simpa using Std.TreeSet.not_mem_of_isEmpty ho.2
  · rfl

@[simp] lemma needs_dropEdge {g : Graph} {a d p q : Path} :
    (dropEdge a g d).Needs p q ↔ g.Needs p q :=
  needs_pruneOrphan.trans (needs_adjust fun _ => rfl)

/-- Dropping an edge takes exactly that reverse edge away. -/
lemma neededBy_dropEdge {g : Graph} {a d p q : Path} :
    (dropEdge a g d).NeededBy q p
      ↔ g.NeededBy q p ∧ ¬(compare a p = .eq ∧ compare d q = .eq) := by
  rw [dropEdge]
  rw [neededBy_pruneOrphan]
  simp only [NeededBy]
  rw [node?_adjust]
  split_ifs with h
  · cases g.node? q with
    | none => simp
    | some n => simp [h, Std.TreeSet.mem_erase, and_comm]
  · simp [h]

@[simp] lemma needs_addEdge {g : Graph} {a d p q : Path} :
    (addEdge a g d).Needs p q ↔ g.Needs p q := by
  refine Iff.trans (needs_adjust ?_) needs_ensure
  intro n
  rfl

lemma node?_ensure_self_ne_none (g : Graph) (a : Path) : (g.ensure a).node? a ≠ none := by
  rw [node?_ensure]
  by_cases h : g.node? a = none <;> simp [h]

/-- Adding an edge brings exactly that reverse edge in. -/
lemma neededBy_addEdge {g : Graph} {a d p q : Path} :
    (addEdge a g d).NeededBy q p
      ↔ g.NeededBy q p ∨ (compare a p = .eq ∧ compare d q = .eq) := by
  have hsome := node?_ensure_self_ne_none g d
  have hold : g.NeededBy q p ↔ (g.ensure d).NeededBy q p := neededBy_ensure.symm
  rw [hold]
  simp only [addEdge, NeededBy]
  rw [node?_adjust]
  split_ifs with h
  · rw [node?_congr _ h] at hsome
    obtain ⟨n, hn⟩ := Option.ne_none_iff_exists'.1 hsome
    simp [hn, h, Std.TreeSet.mem_insert, or_comm]
  · simp [h]

/-! ## Many edges at once -/

lemma needs_foldl_dropEdge {a p q : Path} (ds : List Path) (g : Graph) :
    (ds.foldl (dropEdge a) g).Needs p q ↔ g.Needs p q := by
  induction ds generalizing g with
  | nil => rfl
  | cons d ds ih => rw [List.foldl_cons, ih, needs_dropEdge]

lemma needs_foldl_addEdge {a p q : Path} (ds : List Path) (g : Graph) :
    (ds.foldl (addEdge a) g).Needs p q ↔ g.Needs p q := by
  induction ds generalizing g with
  | nil => rfl
  | cons d ds ih => rw [List.foldl_cons, ih, needs_addEdge]

lemma neededBy_foldl_dropEdge {a p q : Path} (ds : List Path) (g : Graph) :
    (ds.foldl (dropEdge a) g).NeededBy q p
      ↔ g.NeededBy q p ∧ ¬(compare a p = .eq ∧ ∃ d ∈ ds, compare d q = .eq) := by
  induction ds generalizing g with
  | nil => simp
  | cons d ds ih =>
      rw [List.foldl_cons, ih, neededBy_dropEdge]
      simp only [List.mem_cons, exists_eq_or_imp]
      rw [and_assoc, ← not_or, ← and_or_left]

lemma neededBy_foldl_addEdge {a p q : Path} (ds : List Path) (g : Graph) :
    (ds.foldl (addEdge a) g).NeededBy q p
      ↔ g.NeededBy q p ∨ (compare a p = .eq ∧ ∃ d ∈ ds, compare d q = .eq) := by
  induction ds generalizing g with
  | nil => simp
  | cons d ds ih =>
      rw [List.foldl_cons, ih, neededBy_addEdge]
      simp only [List.mem_cons, exists_eq_or_imp]
      rw [or_assoc, ← and_or_left]

/-! ## The node of the file whose needs are set -/

lemma Needs.node?_ne_none {g : Graph} {p q : Path} (h : g.Needs p q) : g.node? p ≠ none := by
  obtain ⟨n, hn, -⟩ := h
  simp [hn]

lemma node?_addEdge_ne_none {g : Graph} {a d p : Path} (h : g.node? p ≠ none) :
    (addEdge a g d).node? p ≠ none := by
  rw [addEdge]
  rw [node?_adjust, node?_ensure]
  split_ifs <;> simp_all

lemma node?_foldl_addEdge_ne_none {a p : Path} (ds : List Path) {g : Graph}
    (h : g.node? p ≠ none) : (ds.foldl (addEdge a) g).node? p ≠ none := by
  induction ds generalizing g with
  | nil => exact h
  | cons d ds ih => exact ih (node?_addEdge_ne_none h)

/-- Dropping edges of `p` keeps its node: while there are edges to drop, it is no orphan. -/
lemma node?_foldl_dropEdge_ne_none {a p : Path} {ds : List Path} {g : Graph}
    (hds : ∀ d ∈ ds, g.Needs p d) (h : g.node? p ≠ none) :
    (ds.foldl (dropEdge a) g).node? p ≠ none := by
  cases ds with
  | nil => exact h
  | cons d ds =>
      have hneeds : g.Needs p d := hds d List.mem_cons_self
      exact ((needs_foldl_dropEdge (d :: ds) g).2 hneeds).node?_ne_none

/-! ## Setting what a file needs -/

/-- The files that `p` needed and needs no longer. -/
def dropped (g : Graph) (p : Path) (needed : List Path) : List Path :=
  ((g.ensure p).dependencies p).filter fun d => !(PathSet.ofPaths needed).contains d

lemma setDependencies_eq (g : Graph) (p : Path) (needed : List Path) :
    g.setDependencies p needed
      = ((PathSet.ofPaths needed).toList.foldl (addEdge p)
          ((g.dropped p needed).foldl (dropEdge p) (g.ensure p))).adjust p
            fun n => { n with dependencies := PathSet.ofPaths needed } := rfl

lemma needs_of_mem_dropped {g : Graph} {p d : Path} {needed : List Path}
    (h : d ∈ g.dropped p needed) : (g.ensure p).Needs p d :=
  needs_iff_dependencies.2 ⟨d, (List.mem_filter.1 h).1, Path.compare_self d⟩

/-- What is needed and not dropped is needed again. -/
lemma among_dropped {g : Graph} {p q : Path} (needed : List Path) (h : g.Needs p q) :
    (∃ d ∈ g.dropped p needed, compare d q = .eq) ∨ q ∈ PathSet.ofPaths needed := by
  obtain ⟨d, hd, hdq⟩ := needs_iff_dependencies.1 (needs_ensure (a := p).2 h)
  by_cases hmem : d ∈ PathSet.ofPaths needed
  · exact Or.inr ((PathSet.mem_congr _ hdq).1 hmem)
  · refine Or.inl ⟨d, List.mem_filter.2 ⟨hd, ?_⟩, hdq⟩
    rw [Bool.not_eq_true', Bool.eq_false_iff]
    exact fun hcontains => hmem (Std.TreeSet.contains_iff_mem.1 hcontains)

lemma node?_before_adjust_ne_none (g : Graph) (p : Path) (needed : List Path) :
    ((PathSet.ofPaths needed).toList.foldl (addEdge p)
      ((g.dropped p needed).foldl (dropEdge p) (g.ensure p))).node? p ≠ none :=
  node?_foldl_addEdge_ne_none _ <| node?_foldl_dropEdge_ne_none
    (fun _ hd => needs_of_mem_dropped hd) (node?_ensure_self_ne_none g p)

/-- The file needs exactly what was set, and all others what they needed. -/
theorem needs_setDependencies {g : Graph} {a p q : Path} {needed : List Path} :
    (g.setDependencies a needed).Needs p q
      ↔ if compare a p = .eq then ∃ d ∈ needed, compare d q = .eq else g.Needs p q := by
  have hnode := node?_before_adjust_ne_none g a needed
  rw [setDependencies_eq]
  split_ifs with h
  · rw [node?_congr _ h] at hnode
    obtain ⟨n, hn⟩ := Option.ne_none_iff_exists'.1 hnode
    rw [Needs]
    rw [node?_adjust, if_pos h, hn]
    simpa using PathSet.mem_ofPaths
  · have hold : g.Needs p q ↔ ((PathSet.ofPaths needed).toList.foldl (addEdge a)
        ((g.dropped a needed).foldl (dropEdge a) (g.ensure a))).Needs p q := by
      rw [needs_foldl_addEdge, needs_foldl_dropEdge, needs_ensure]
    rw [hold]
    simp only [Needs]
    rw [node?_adjust, if_neg h]

lemma neededBy_setDependencies {g : Graph} {a p q : Path} {needed : List Path} :
    (g.setDependencies a needed).NeededBy q p
      ↔ (g.NeededBy q p ∧ ¬(compare a p = .eq ∧ ∃ d ∈ g.dropped a needed, compare d q = .eq))
        ∨ (compare a p = .eq ∧ q ∈ PathSet.ofPaths needed) := by
  rw [setDependencies_eq, PathSet.mem_iff_toList, ← neededBy_ensure (a := a) (g := g),
    ← neededBy_foldl_dropEdge, ← neededBy_foldl_addEdge]
  exact neededBy_adjust fun _ => rfl

/-- Setting what a file needs keeps both directions in step. -/
theorem InStep.setDependencies {g : Graph} (h : g.InStep) (a : Path) (needed : List Path) :
    (g.setDependencies a needed).InStep := by
  intro p q
  rw [needs_setDependencies, neededBy_setDependencies, ← h p q, PathSet.mem_ofPaths]
  split_ifs with ha
  · rw [← needs_congr g ha (Path.compare_self q)]
    constructor
    · rintro hset
      exact Or.inr ⟨ha, hset⟩
    · rintro (⟨hold, hkept⟩ | ⟨-, hset⟩)
      · rcases among_dropped needed hold with hdropped | hset
        · exact absurd ⟨ha, hdropped⟩ hkept
        · exact PathSet.mem_ofPaths.1 hset
      · exact hset
  · simp [ha]

/-! ## Builds and removals -/

lemma needs_recordBuild {g : Graph} {a p q : Path} {input output : Digest}
    {metadata : Option Json} :
    (g.recordBuild a input output metadata).Needs p q ↔ g.Needs p q := by
  refine Iff.trans (needs_adjust ?_) needs_ensure
  intro n
  rfl

lemma neededBy_recordBuild {g : Graph} {a p q : Path} {input output : Digest}
    {metadata : Option Json} :
    (g.recordBuild a input output metadata).NeededBy q p ↔ g.NeededBy q p := by
  refine Iff.trans (neededBy_adjust ?_) neededBy_ensure
  intro n
  rfl

lemma InStep.recordBuild {g : Graph} (h : g.InStep) (a : Path) (input output : Digest)
    (metadata : Option Json) : (g.recordBuild a input output metadata).InStep := by
  intro p q
  rw [needs_recordBuild, neededBy_recordBuild]
  exact h p q

/-- A file that is removed needs nothing. -/
theorem needs_remove {g : Graph} {a p q : Path} :
    (g.remove a).Needs p q ↔ ¬compare a p = .eq ∧ g.Needs p q := by
  have hforget : (g.remove a).Needs p q ↔ (g.setDependencies a []).Needs p q :=
    needs_pruneOrphan.trans (needs_adjust fun _ => rfl)
  rw [hforget, needs_setDependencies]
  split_ifs with h <;> simp [h]

lemma InStep.remove {g : Graph} (h : g.InStep) (a : Path) : (g.remove a).InStep := by
  intro p q
  have hset := h.setDependencies a [] p q
  have hneeds : (g.remove a).Needs p q ↔ (g.setDependencies a []).Needs p q :=
    needs_pruneOrphan.trans (needs_adjust fun _ => rfl)
  have hneeded : (g.remove a).NeededBy q p ↔ (g.setDependencies a []).NeededBy q p :=
    neededBy_pruneOrphan.trans (neededBy_adjust fun _ => rfl)
  rw [hneeds, hneeded, hset]

lemma inStep_empty : InStep {} := by
  intro p q
  simp only [Needs, NeededBy, node?]
  simp

/-! ## Repair -/

lemma neededBy_foldl_edges {p q : Path} (es : List (Path × Path)) (g : Graph) :
    (es.foldl (fun g (p, d) => addEdge p g d) g).NeededBy q p
      ↔ g.NeededBy q p ∨ ∃ e ∈ es, compare e.1 p = .eq ∧ compare e.2 q = .eq := by
  induction es generalizing g with
  | nil => simp
  | cons e es ih =>
      rw [List.foldl_cons, ih, neededBy_addEdge]
      simp only [List.mem_cons, exists_eq_or_imp]
      rw [or_assoc]

lemma needs_foldl_edges {p q : Path} (es : List (Path × Path)) (g : Graph) :
    (es.foldl (fun g (p, d) => addEdge p g d) g).Needs p q ↔ g.Needs p q := by
  induction es generalizing g with
  | nil => rfl
  | cons e es ih => rw [List.foldl_cons, ih, needs_addEdge]

/-- The list of edges has a spelling of each forward edge. -/
lemma needs_iff_edges {g : Graph} {p q : Path} :
    g.Needs p q ↔ ∃ e ∈ g.edges, compare e.1 p = .eq ∧ compare e.2 q = .eq := by
  constructor
  · rintro ⟨n, hn, hq⟩
    obtain ⟨a, ha, hmem⟩ :=
      Std.TreeMap.getElem?_eq_some_iff_exists_compare_eq_eq_and_mem_toList.1 hn
    obtain ⟨d, hd, hdq⟩ := PathSet.mem_iff_toList.1 hq
    refine ⟨(a, d), ?_, Path.compare_comm.1 ha, hdq⟩
    exact List.mem_flatMap.2 ⟨(a, n), hmem, List.mem_map.2 ⟨d, hd, rfl⟩⟩
  · rintro ⟨⟨a, d⟩, he, hap, hdq⟩
    obtain ⟨⟨a', n⟩, hmem, hlist⟩ := List.mem_flatMap.1 he
    obtain ⟨d', hd, heq⟩ := List.mem_map.1 hlist
    cases heq
    refine ⟨n, ?_, PathSet.mem_iff_toList.2 ⟨d, hd, hdq⟩⟩
    exact Std.TreeMap.getElem?_eq_some_iff_exists_compare_eq_eq_and_mem_toList.2
      ⟨a, Path.compare_comm.1 hap, hmem⟩

/-- Repair keeps the forward edges. -/
theorem needs_ofNodes {nodes : PathMap GraphNode} {p q : Path} :
    (ofNodes nodes).Needs p q ↔ Needs ⟨nodes⟩ p q := by
  rw [ofNodes, rebuildDependents]
  rw [needs_foldl_edges]
  simp only [Needs, node?]
  rw [PathMap.getElem?_map]
  cases nodes[p]? <;> simp

/-- Repair brings both directions in step, whatever the nodes say. -/
theorem inStep_ofNodes (nodes : PathMap GraphNode) : (ofNodes nodes).InStep := by
  intro p q
  rw [needs_ofNodes, needs_iff_edges]
  rw [ofNodes, rebuildDependents]
  rw [neededBy_foldl_edges]
  refine (or_iff_right ?_).symm
  rintro ⟨n, hn, hp⟩
  rw [node?] at hn
  rw [PathMap.getElem?_map] at hn
  obtain ⟨m, -, rfl⟩ := Option.map_eq_some_iff.1 hn
  simp at hp

/-! ## Closure -/

/-- `p` needs `q`, directly, through other files or as the file itself. -/
abbrev Reaches (g : Graph) : Path → Path → Prop := Relation.ReflTransGen g.Needs

/-- What needs a file is among all dependents, and that spelling is tried. -/
lemma NeededBy.exists_dependent {g : Graph} {p q : Path} (h : g.NeededBy q p) :
    ∃ d ∈ g.dependents q, compare d p = .eq ∧ Reach.among g.allDependents d = true := by
  obtain ⟨d, hd, hdp⟩ := neededBy_iff_dependents.1 h
  obtain ⟨n, hn, -⟩ := h
  refine ⟨d, hd, hdp, Reach.among_of_mem ?_⟩
  obtain ⟨a, -, hmem⟩ :=
    Std.TreeMap.getElem?_eq_some_iff_exists_compare_eq_eq_and_mem_toList.1 hn
  have hvalue : n ∈ g.nodes.values := by
    rw [PathMap.values_eq]
    exact List.mem_map.2 ⟨(a, n), hmem, rfl⟩
  refine List.mem_flatMap.2 ⟨n, hvalue, ?_⟩
  rw [dependents] at hd
  rwa [hn] at hd

/-- A file is among all dependents exactly if it needs some file. -/
lemma among_allDependents {g : Graph} {p : Path} :
    Reach.among g.allDependents p = true ↔ ∃ q, g.NeededBy q p := by
  constructor
  · intro h
    obtain ⟨d, hd, hpd⟩ := Reach.among_iff.1 h
    obtain ⟨n, hn, hdn⟩ := List.mem_flatMap.1 hd
    rw [PathMap.values_eq] at hn
    obtain ⟨⟨q, n⟩, hmem, rfl⟩ := List.mem_map.1 hn
    refine ⟨q, n, ?_, PathSet.mem_iff_toList.2 ⟨d, hdn, Path.compare_comm.1 hpd⟩⟩
    exact Std.TreeMap.getElem?_eq_some_iff_exists_compare_eq_eq_and_mem_toList.2
      ⟨q, Path.compare_self q, hmem⟩
  · rintro ⟨q, hq⟩
    obtain ⟨d, -, hdp, hmem⟩ := hq.exists_dependent
    rwa [← Reach.among_congr hdp]

/-- The walk goes by the lists of dependents. -/
lemma affected_congr {g g' : Graph} (h : ∀ q, g'.dependents q = g.dependents q)
    (changed : List Path) : g'.affected changed = g.affected changed := by
  refine Reach.order_congr h (fun p => ?_) changed
  rw [Bool.eq_iff_iff, among_allDependents, among_allDependents]
  simp only [neededBy_iff_dependents, h]

/-- **The walk over reverse edges is complete**: it finds each changed file and everything that
needs one, directly or not, cycles or no. -/
theorem among_affected {g : Graph} (h : g.InStep) {changed : List Path} {p c : Path}
    (hpc : g.Reaches p c) (hc : Reach.among changed c = true) :
    Reach.among (g.affected changed) p = true := by
  induction hpc using Relation.ReflTransGen.head_induction_on with
  | refl =>
      obtain ⟨c', hc', hcc'⟩ := Reach.among_iff.1 hc
      have hfound : Reach.among (g.affected changed) c' = true := Reach.among_order_of_mem hc'
      rwa [Reach.among_congr hcc']
  | @head p q hpq _ ih =>
      obtain ⟨q', hq', hqq'⟩ := Reach.among_iff.1 ih
      have hneeded : g.NeededBy q' p := (h p q').1
        ((needs_congr g (Path.compare_self p) hqq').1 hpq)
      obtain ⟨d, hd, hdp, hmem⟩ := hneeded.exists_dependent
      rw [← Reach.among_congr hdp]
      exact Reach.settled_order hq' d hd hmem

/-- The walk finds nothing else. -/
theorem exists_reaches_of_mem_affected {g : Graph} (h : g.InStep) {changed : List Path} {p : Path}
    (hp : p ∈ g.affected changed) : ∃ c ∈ changed, g.Reaches p c := by
  refine Reach.forall_order (P := fun p => ∃ c ∈ changed, g.Reaches p c) ?_ ?_ p hp
  · rintro q ⟨c, hc, hqc⟩ d hd -
    have hneeds : g.Needs d q := (h d q).2 (neededBy_iff_dependents.2 ⟨d, hd, Path.compare_self d⟩)
    exact ⟨c, hc, .head hneeds hqc⟩
  · exact fun c hc => ⟨c, hc, .refl⟩

end Rebuild.Graph
