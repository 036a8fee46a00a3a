import Rebuild.Proofs.Graph.Refinement

/-!
# Which files have nodes

A node stays while it was built or has an edge.  `Graph.Held` says so of one file, and no operation
leaves an orphan behind: an edge that goes takes the node at its end along if nothing else holds it,
and what an operation does to the file itself is made good by the build that is recorded, or by the
last pruning (`Held.setDependencies`, `Held.recordBuild`, `Held.remove`).  Repair keeps what holds a
node (`held_ofNodes`), and makes new nodes only where an edge points to none
(`map_bare_rebuildDependents`).
-/

namespace Rebuild.Graph

/-- The file has no node, or one that was built or has an edge. -/
def Held (g : Graph) (p : Path) : Prop := ∀ n, g.node? p = some n → isOrphan n = false

variable {g : Graph} {a d p q : Path}

/-- What holds a node. -/
lemma isOrphan_eq_false_iff {n : GraphNode} : isOrphan n = false ↔
    n.inputDigest.isSome = true ∨ (∃ q, q ∈ n.dependencies) ∨ ∃ q, q ∈ n.dependents := by
  simp only [isOrphan, Bool.and_eq_false_iff, Option.isNone_eq_false_iff,
    Std.TreeSet.isEmpty_eq_false_iff_exists_mem, or_assoc]

lemma Held.ensure (h : g.Held p) (hne : compare a p ≠ .eq) : (g.ensure a).Held p := by
  intro n hn
  rw [node?_ensure, if_neg fun hp => hne hp.1] at hn
  exact h n hn

lemma Held.adjust (h : g.Held p) {f : GraphNode → GraphNode} (hne : compare a p ≠ .eq) :
    (g.adjust a f).Held p := by
  intro n hn
  rw [node?_adjust, if_neg hne] at hn
  exact h n hn

/-- Pruning a file leaves no orphan there. -/
lemma held_pruneOrphan (hp : compare a p = .eq) : (g.pruneOrphan a).Held p := by
  intro n hn
  rw [node?_pruneOrphan] at hn
  split_ifs at hn with horphan
  rw [node?_congr g hp, hn, Option.any_some] at horphan
  simpa [hp] using horphan

lemma Held.pruneOrphan (h : g.Held p) : (g.pruneOrphan a).Held p := by
  by_cases hp : compare a p = .eq
  · exact held_pruneOrphan hp
  · intro n hn
    rw [node?_pruneOrphan, if_neg fun hap => hp hap.1] at hn
    exact h n hn

lemma Held.dropEdge (h : g.Held p) : (dropEdge a g d).Held p := by
  by_cases hp : compare d p = .eq
  · exact held_pruneOrphan hp
  · exact (h.adjust hp).pruneOrphan

lemma Held.addEdge (h : g.Held p) : (addEdge a g d).Held p := by
  by_cases hp : compare d p = .eq
  · intro n hn
    rw [Graph.addEdge, node?_adjust, if_pos hp] at hn
    obtain ⟨m, -, rfl⟩ := Option.map_eq_some_iff.1 hn
    exact isOrphan_eq_false_iff.2 (Or.inr (Or.inr ⟨a, by simp⟩))
  · exact (h.ensure hp).adjust hp

lemma Held.foldl {α : Type} {f : Graph → α → Graph}
    (hf : ∀ {g : Graph} (x : α), g.Held p → (f g x).Held p) (xs : List α) (h : g.Held p) :
    (xs.foldl f g).Held p := by
  induction xs generalizing g with
  | nil => exact h
  | cons x xs ih => exact ih (hf x h)

/-- No other file is left an orphan when the needs of a file are set. -/
lemma Held.setDependencies (h : g.Held p) (needed : List Path) (hne : compare a p ≠ .eq) :
    (g.setDependencies a needed).Held p := by
  rw [setDependencies_eq]
  refine Held.adjust ?_ hne
  refine .foldl (f := Graph.addEdge a) (fun _ hd => hd.addEdge) _ ?_
  exact .foldl (f := Graph.dropEdge a) (fun _ hd => hd.dropEdge) _ (h.ensure hne)

/-- A file that was built is held. -/
lemma held_of_carries {b : Build} (h : g.Carries p (some b)) : g.Held p := by
  intro n hn
  rw [Carries, hn] at h
  exact isOrphan_eq_false_iff.2 (Or.inl (by rw [h.1]; rfl))

lemma Held.recordBuild (h : g.Held p) {input output : Digest} {metadata : Option Json}
    (hne : compare a p ≠ .eq) : (g.recordBuild a input output metadata).Held p :=
  (h.ensure hne).adjust hne

/-- No orphan is left when a file is removed, not even the file itself. -/
lemma Held.remove (h : g.Held p) : (g.remove a).Held p := by
  by_cases hp : compare a p = .eq
  · exact held_pruneOrphan hp
  · exact ((h.setDependencies [] hp).adjust hp).pruneOrphan

lemma held_empty : Held {} p := by
  intro n hn
  simp [node?] at hn

/-! ## Repair -/

/-- Repair keeps builds, and brings none in. -/
lemma carries_ofNodes {nodes : PathMap GraphNode} {b : Option Build} (h : Carries ⟨nodes⟩ p b) :
    (ofNodes nodes).Carries p b := by
  refine List.foldlRecOn (motive := (Carries · p b)) _ _ ?_ fun g hg e _ => hg.addEdge e.1 e.2
  rw [Carries] at h ⊢
  simp only [node?] at h ⊢
  rw [PathMap.getElem?_map]
  cases hn : nodes[p]? with
  | none =>
      rw [hn] at h
      exact h
  | some n =>
      rw [hn] at h
      cases b <;> exact h

/-- The node but for what needs it. -/
def bare (n : GraphNode) : GraphNode := { n with dependents := ∅ }

/-- If each edge adds to an answer only where there is none yet, then the walk over the edges adds
what the first of them adds that adds anything. -/
lemma rebuildDependents_or {β : Type} {f : Graph → Option β} {new : Path × Path → Option β}
    (hf : ∀ g e, f (Graph.addEdge e.1 g e.2) = (f g).or (new e)) (g : Graph) :
    f (rebuildDependents g)
      = (f ⟨g.nodes.map fun _ n => bare n⟩).or (g.edges.findSome? new) := by
  have hfold : ∀ (es : List (Path × Path)) (g : Graph),
      f (es.foldl (fun g e => Graph.addEdge e.1 g e.2) g) = (f g).or (es.findSome? new) := by
    intro es
    induction es with
    | nil => exact fun g => Option.or_none.symm
    | cons e es ih =>
        intro g
        rw [List.foldl_cons, ih, hf, List.findSome?_cons, Option.or_assoc]
        cases new e <;> rfl
  exact hfold g.edges _

/-- An edge leaves the nodes alone that are there, and makes a new one if its target has none. -/
lemma map_bare_addEdge : ((addEdge a g d).node? q).map bare
    = ((g.node? q).map bare).or (if compare d q = .eq then some { path := d } else none) := by
  rw [Graph.addEdge, node?_adjust, node?_ensure]
  split_ifs with hq hnone hnone
  · rw [← node?_congr g hq, hnone.2]
    rfl
  · have hsome : g.node? d ≠ none := fun h => hnone ⟨hq, h⟩
    rw [node?_congr g hq] at hsome
    obtain ⟨n, hn⟩ := Option.ne_none_iff_exists'.1 hsome
    rw [hn]
    rfl
  · exact absurd hnone.1 hq
  · rw [Option.or_none]

/-- The first edge that points to the file. -/
def firstEdgeTo? (g : Graph) (q : Path) : Option (Path × Path) :=
  g.edges.find? fun e => compare e.2 q = .eq

lemma findSome?_edges {β : Type} (new : Path × Path → β) :
    (g.edges.findSome? fun e => if compare e.2 q = .eq then some (new e) else none)
      = (g.firstEdgeTo? q).map new := by
  rw [firstEdgeTo?, List.find?_eq_findSome?_guard, List.map_findSome?]
  congr 1
  funext e
  by_cases hq : compare e.2 q = .eq <;> simp [Option.guard, hq]

lemma firstEdgeTo?_eq_none_iff : g.firstEdgeTo? q = none ↔ ∀ p, ¬g.Needs p q := by
  simp only [firstEdgeTo?, List.find?_eq_none, decide_eq_true_eq]
  constructor
  · rintro h p hp
    obtain ⟨e, he, -, hq⟩ := needs_iff_edges.1 hp
    exact h e he hq
  · exact fun h e he hq => h e.1 (needs_iff_edges.2 ⟨e, he, Path.compare_self _, hq⟩)

lemma points_of_firstEdgeTo? {e : Path × Path} (he : g.firstEdgeTo? q = some e) :
    e ∈ g.edges ∧ compare e.2 q = .eq := by
  rw [firstEdgeTo?] at he
  exact ⟨List.mem_of_find?_eq_some he, by simpa using List.find?_some he⟩

/-- Repair leaves the nodes alone that are there, and makes new ones for the targets of edges. -/
lemma map_bare_rebuildDependents (g : Graph) (q : Path) :
    ((rebuildDependents g).node? q).map bare
      = ((g.node? q).map bare).or ((g.firstEdgeTo? q).map fun e => { path := e.2 }) := by
  have hbare : ((Graph.mk (g.nodes.map fun _ n => bare n)).node? q).map bare
      = (g.node? q).map bare := by
    rw [node?, PathMap.getElem?_map, Option.map_map]
    rfl
  rw [← hbare, ← findSome?_edges]
  exact rebuildDependents_or (f := fun g => (g.node? q).map bare) (fun _ _ => map_bare_addEdge) g

/-- Where every file that is needed has a node, repair changes nothing but what is known of the
dependents. -/
lemma map_bare_ofNodes {nodes : PathMap GraphNode}
    (h : ∀ p q, Needs ⟨nodes⟩ p q → ∃ x, nodes[q]? = some x) (q : Path) :
    ((ofNodes nodes).node? q).map bare = nodes[q]?.map bare := by
  rw [ofNodes, map_bare_rebuildDependents]
  cases hq : nodes[q]? with
  | none =>
      have hfirst : firstEdgeTo? ⟨nodes⟩ q = none := by
        refine firstEdgeTo?_eq_none_iff.2 fun p hp => ?_
        obtain ⟨x, hx⟩ := h p q hp
        cases hx.symm.trans hq
      rw [hfirst, node?, hq]
      rfl
  | some n =>
      rw [node?, hq]
      rfl

/-- A file that is needed is held. -/
lemma NeededBy.held (h : g.NeededBy p q) : g.Held p := by
  intro n hn
  obtain ⟨m, hm, hq⟩ := h
  cases hm.symm.trans hn
  exact isOrphan_eq_false_iff.2 (Or.inr (Or.inr ⟨q, hq⟩))

/-- Repair leaves no orphan if there was none and both directions agreed: a node that was held by
its dependents alone gets them back. -/
lemma held_ofNodes {nodes : PathMap GraphNode} (hstep : InStep ⟨nodes⟩) (h : Held ⟨nodes⟩ p) :
    (ofNodes nodes).Held p := by
  by_cases hneeded : ∃ q, (ofNodes nodes).NeededBy p q
  · obtain ⟨q, hq⟩ := hneeded
    exact hq.held
  · refine Held.foldl (f := fun g (e : Path × Path) => Graph.addEdge e.1 g e.2)
      (fun _ hd => hd.addEdge) _ ?_
    intro n hn
    rw [node?] at hn
    rw [PathMap.getElem?_map] at hn
    obtain ⟨m, hm, rfl⟩ := Option.map_eq_some_iff.1 hn
    rcases isOrphan_eq_false_iff.1 (h m hm) with hbuilt | hneeds | ⟨q, hq⟩
    · exact isOrphan_eq_false_iff.2 (Or.inl hbuilt)
    · exact isOrphan_eq_false_iff.2 (Or.inr (Or.inl hneeds))
    · have hneeds : Needs ⟨nodes⟩ q p := (hstep q p).2 ⟨m, hm, hq⟩
      exact absurd ⟨q, (inStep_ofNodes nodes q p).1 (needs_ofNodes.2 hneeds)⟩ hneeded

/-! ## Nodes and edges -/

/-- Where both directions agree and nothing is an orphan, a file has a node exactly if it was built
or is at an end of an edge. -/
lemma contains_iff (hstep : g.InStep) (hheld : g.Held p) : g.contains p = true ↔
    (∃ n, g.node? p = some n ∧ n.inputDigest.isSome = true) ∨ (∃ q, g.Needs p q)
      ∨ ∃ q, g.Needs q p := by
  have hcontains : g.contains p = true ↔ ∃ n, g.node? p = some n := by
    rw [contains, Std.TreeMap.contains_iff_mem, Std.TreeMap.mem_iff_isSome_getElem?,
      Option.isSome_iff_exists]
    rfl
  rw [hcontains]
  constructor
  · rintro ⟨n, hn⟩
    rcases isOrphan_eq_false_iff.1 (hheld n hn) with hbuilt | ⟨q, hq⟩ | ⟨q, hq⟩
    · exact Or.inl ⟨n, hn, hbuilt⟩
    · exact Or.inr (Or.inl ⟨q, n, hn, hq⟩)
    · exact Or.inr (Or.inr ⟨q, (hstep q p).2 ⟨n, hn, hq⟩⟩)
  · rintro (⟨n, hn, -⟩ | ⟨q, n, hn, -⟩ | ⟨q, hq⟩)
    · exact ⟨n, hn⟩
    · exact ⟨n, hn⟩
    · obtain ⟨n, hn, -⟩ := (hstep q p).1 hq
      exact ⟨n, hn⟩

end Rebuild.Graph
