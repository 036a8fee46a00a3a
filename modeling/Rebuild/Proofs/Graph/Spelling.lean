import Rebuild.Proofs.Graph.Edges
import Rebuild.Proofs.Path.Spelling

/-!
# Spellings in the graph

The graph lists files under the spellings with which they came in.  `Graph.Spelled` says that these are
all such, and every operation keeps it if the files that it is given are such; repair takes the
spellings of the nodes.  `Graph.Normal` says of the ends of edges only that they name what their normal
forms name.
-/

namespace Rebuild

/-- The edges of the node are spelled like this. -/
structure GraphNode.Spelled (n : GraphNode) (P : Path → Prop) : Prop where
  dependencies : n.dependencies.Each P
  dependents : n.dependents.Each P

namespace Graph

/-- The nodes and the edges of the graph are spelled like this. -/
structure Spelled (g : Graph) (P : Path → Prop) : Prop where
  keys : g.nodes.Keys P
  nodes : g.nodes.Every (GraphNode.Spelled · P)

variable {g : Graph} {P : Path → Prop} {p d : Path}

lemma spelled_empty : Spelled {} P := ⟨PathMap.keys_empty, PathMap.every_empty⟩

lemma Spelled.ensure (h : g.Spelled P) (hp : P p) : (g.ensure p).Spelled P :=
  ⟨h.keys.ensure hp _, h.nodes.ensure ⟨PathSet.each_empty, PathSet.each_empty⟩⟩

lemma Spelled.adjust (h : g.Spelled P) {f : GraphNode → GraphNode}
    (hf : ∀ n, n.Spelled P → (f n).Spelled P) (p : Path) : (g.adjust p f).Spelled P :=
  ⟨h.keys.adjust p f, h.nodes.adjust hf p⟩

lemma Spelled.pruneOrphan (h : g.Spelled P) (p : Path) : (g.pruneOrphan p).Spelled P := by
  rw [Graph.pruneOrphan]
  split
  · split_ifs
    · exact ⟨h.keys.erase p, h.nodes.erase p⟩
    · exact h
  · exact h

lemma Spelled.dropEdge (h : g.Spelled P) (p d : Path) : (dropEdge p g d).Spelled P := by
  refine Spelled.pruneOrphan (h.adjust ?_ d) d
  intro n hn
  exact ⟨hn.dependencies, hn.dependents.erase p⟩

lemma Spelled.addEdge (h : g.Spelled P) (hp : P p) (hd : P d) : (addEdge p g d).Spelled P := by
  refine (h.ensure hd).adjust ?_ d
  intro n hn
  exact ⟨hn.dependencies, hn.dependents.insert hp⟩

lemma Spelled.setDependencies (h : g.Spelled P) (hp : P p) {needed : List Path}
    (hneeded : ∀ d ∈ needed, P d) : (g.setDependencies p needed).Spelled P := by
  have hnew := PathSet.each_ofPaths hneeded
  rw [setDependencies_eq]
  refine Spelled.adjust ?_ ?_ p
  · have hdropped := List.foldlRecOn (motive := (Spelled · P)) (g.dropped p needed) (Graph.dropEdge p)
      (h.ensure hp) fun g hg d _ => hg.dropEdge p d
    exact List.foldlRecOn (motive := (Spelled · P)) _ (Graph.addEdge p) hdropped fun g hg d hd =>
      hg.addEdge hp (hnew.of_mem_toList hd)
  · intro n hn
    exact ⟨hnew, hn.dependents⟩

lemma Spelled.recordBuild (h : g.Spelled P) (hp : P p) (input output : Digest)
    (metadata : Option Json) : (g.recordBuild p input output metadata).Spelled P := by
  refine (h.ensure hp).adjust ?_ p
  intro n hn
  exact ⟨hn.dependencies, hn.dependents⟩

lemma Spelled.remove (h : g.Spelled P) (hp : P p) : (g.remove p).Spelled P := by
  refine Spelled.pruneOrphan (Spelled.adjust (h.setDependencies hp ?_) ?_ p) p
  · intro d hd
    cases hd
  · intro n hn
    exact ⟨hn.dependencies, hn.dependents⟩

/-- Repair turns edges round, so the spellings of both their ends go into the graph. -/
lemma spelled_ofNodes {nodes : PathMap GraphNode} (h : Spelled ⟨nodes⟩ P) :
    (ofNodes nodes).Spelled P := by
  have hedges : ∀ e ∈ edges ⟨nodes⟩, P e.1 ∧ P e.2 := by
    intro e he
    obtain ⟨x, hx, he⟩ := List.mem_flatMap.1 he
    obtain ⟨d, hd, rfl⟩ := List.mem_map.1 he
    exact ⟨h.keys.of_mem_toList hx,
      (h.nodes x.1 x.2 (PathMap.getElem?_of_mem_toList hx)).dependencies.of_mem_toList hd⟩
  refine List.foldlRecOn (motive := (Spelled · P)) _ _ ⟨h.keys.map _, ?_⟩ fun g hg e he =>
    hg.addEdge (hedges e he).1 (hedges e he).2
  intro p n hn
  rw [PathMap.getElem?_map] at hn
  obtain ⟨m, hm, rfl⟩ := Option.map_eq_some_iff.1 hn
  exact ⟨(h.nodes p m hm).dependencies, PathSet.each_empty⟩

/-! ## Normal forms -/

/-- The two files of an edge are spelled like their normal forms. -/
def Normal (g : Graph) : Prop :=
  ∀ p q, g.Needs p q → compare p p.normalize = .eq ∧ compare q q.normalize = .eq

lemma compare_normalize {p q : Path} (hp : p.normalize = p) (h : compare p q = .eq) :
    compare q q.normalize = .eq := by
  rw [← Path.normalize_congr h, hp]
  exact Path.compare_comm.1 h

lemma normal_empty : Normal {} := by
  intro p q hneeds
  simp [Needs, node?] at hneeds

lemma Normal.setDependencies (h : g.Normal) (hp : p.normalize = p) {needed : List Path}
    (hneeded : ∀ d ∈ needed, d.normalize = d) : (g.setDependencies p needed).Normal := by
  intro q d hneeds
  rw [needs_setDependencies] at hneeds
  split_ifs at hneeds with hpq
  · obtain ⟨x, hx, hxd⟩ := hneeds
    exact ⟨compare_normalize hp hpq, compare_normalize (hneeded x hx) hxd⟩
  · exact h q d hneeds

lemma Normal.recordBuild (h : g.Normal) (p : Path) (input output : Digest)
    (metadata : Option Json) : (g.recordBuild p input output metadata).Normal :=
  fun q d hneeds => h q d (needs_recordBuild.1 hneeds)

lemma Normal.remove (h : g.Normal) (p : Path) : (g.remove p).Normal :=
  fun q d hneeds => h q d (needs_remove.1 hneeds).2

end Graph
end Rebuild
