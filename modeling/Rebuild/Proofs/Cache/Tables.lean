import Rebuild.Proofs.Cache.Keeping
import Rebuild.Proofs.Graph.Nodes

/-!
# The tables of a cache

A cache knows a file in three places: its entry, its record, and its node in the graph.  Storing
changes all three, forgetting an entry two of them, and stamping brings records in on the side.

* **One file.**  `Agrees` says that record and node of a file say what its entry says.
* **All files.**  `AllAgree` says so of every entry, and each operation keeps it (`AllAgree.store`,
  `AllAgree.invalidate`, `AllAgree.removeFile`).
* **Nodes that are read again.**  What a graph says is read off from its nodes: `carries_of_same`,
  `neededBy_of_same`, `held_of_same`.
-/

namespace Rebuild

lemma GraphNode.Same.carries_iff {n n' : GraphNode} (h : n.Same n') (b : Option Build) :
    n'.Carries b ↔ n.Carries b := by
  cases b <;> simp only [GraphNode.Carries, h.inputDigest, h.outputDigest, h.metadata]

namespace Cache

/-! ## Files -/

/-- Record and node of `p` say what its entry says. -/
structure Agrees (c : Cache) (p : Path) (e : CacheEntry) : Prop where
  record : ∃ r, c.records[p]? = some r ∧ r.digest = e.inputDigest
  build : c.graph.Carries p (some ⟨e.inputDigest, e.outputDigest, e.metadata⟩)
  needs : ∀ q, c.graph.Needs p q ↔ ∃ d ∈ e.dependencies, compare d q = .eq
  output : e.outputDigest = Digest.ofText e.output
  stamps : ∀ q ∈ e.dependencyDigests, ∃ d ∈ e.dependencies, compare d q = .eq

/-- All tables say the same about every file that has an entry. -/
def AllAgree (c : Cache) : Prop := ∀ (p : Path) (e : CacheEntry), c.entries[p]? = some e → c.Agrees p e

variable {c c' : Cache} {tree : FileTree} {now : Timestamp} {a p : Path} {output : String}
  {reported : List Path} {metadata : Option Json}

lemma AllAgree.store (h : c.AllAgree)
    (hstore : c.store tree now a output reported metadata = .ok c') : c'.AllAgree := by
  obtain ⟨r, e₀, -, rfl, hentries, hrecords, hgraph⟩ := exists_tables hstore
  intro p e hentry
  rw [hentries, PathMap.getElem?_put] at hentry
  split_ifs at hentry with hap
  · cases hentry
    refine ⟨⟨r, ?_, rfl⟩, ?_, fun q => ?_, rfl, fun q hq => ?_⟩
    · rw [hrecords, PathMap.getElem?_put, if_pos hap]
    · rw [hgraph]
      exact Graph.carries_recordBuild _ ⟨r.digest, Digest.ofText output, metadata⟩ hap
    · rw [hgraph, Graph.needs_recordBuild, Graph.needs_setDependencies, if_pos hap]
    · exact (mem_stampAll hq).resolve_left Std.TreeMap.not_mem_emptyc
  · have hold := h p e hentry
    obtain ⟨s, hs, hdigest⟩ := hold.record
    refine ⟨⟨s, ?_, hdigest⟩, ?_, fun q => ?_, hold.output, hold.stamps⟩
    · rw [hrecords, PathMap.getElem?_put, if_neg hap]
      exact stampAll_of_record hs
    · rw [hgraph]
      exact (hold.build.setDependencies _ _).recordBuild _ _ _ hap
    · rw [hgraph, Graph.needs_recordBuild, Graph.needs_setDependencies, if_neg hap]
      exact hold.needs q

lemma AllAgree.invalidate (h : c.AllAgree) (a : Path) : (c.invalidate a).AllAgree := by
  intro p e hentry
  simp only [Cache.invalidate, Std.TreeMap.getElem?_erase] at hentry
  split_ifs at hentry with hap
  have hold := h p e hentry
  refine ⟨?_, hold.build, hold.needs, hold.output, hold.stamps⟩
  simp only [Cache.invalidate, Std.TreeMap.getElem?_erase, if_neg hap]
  exact hold.record

lemma graph_removeFile (c : Cache) (p : Path) :
    (c.removeFile p).graph = c.graph.remove p.normalize := by
  rw [removeFile]

lemma AllAgree.removeFile (h : c.AllAgree) (a : Path) : (c.removeFile a).AllAgree := by
  intro p e hentry
  simp only [Cache.removeFile, Std.TreeMap.getElem?_erase] at hentry
  split_ifs at hentry with hap
  have hold := h p e hentry
  refine ⟨?_, ?_, fun q => ?_, hold.output, hold.stamps⟩
  · simp only [Cache.removeFile, Std.TreeMap.getElem?_erase, if_neg hap]
    exact hold.record
  · rw [graph_removeFile]
    exact hold.build.remove hap
  · rw [graph_removeFile, Graph.needs_remove, hold.needs]
    exact and_iff_right hap

lemma AllAgree.sameContent (h : c.AllAgree) (hsame : c.SameContent c') : c'.AllAgree := by
  intro p e hentry
  rw [hsame.entries] at hentry
  have hold := h p e hentry
  refine ⟨?_, ?_, fun q => ?_, hold.output, hold.stamps⟩
  · rw [hsame.records]
    exact hold.record
  · rw [hsame.graph]
    exact hold.build
  · rw [hsame.graph]
    exact hold.needs q

/-- A cache without entries. -/
lemma allAgree_of_empty (h : c.entries = ∅) : c.AllAgree := by
  intro p e hentry
  rw [h, Std.TreeMap.getElem?_emptyc] at hentry
  cases hentry

/-- What is cleared has no entries. -/
lemma entries_clear (c : Cache) (tree : FileTree) :
    (c.clear tree).1.entries = ∅ ∧ (c.clear tree).1.graph = {} := by
  simp only [Cache.clear]
  split
  · exact ⟨rfl, rfl⟩
  · split <;> exact ⟨rfl, rfl⟩

/-! ## Nodes that are read again -/

/-- The nodes that are opened carry the builds that were saved. -/
lemma carries_of_same {nodes : PathMap GraphNode} {g : Graph} {b : Option Build}
    (h : ∀ q : Path, Option.Rel GraphNode.Same g.nodes[q]? nodes[q]?) (hg : g.Carries p b) :
    Graph.Carries ⟨nodes⟩ p b := by
  have hp := h p
  simp only [Graph.Carries, Graph.node?] at hg ⊢
  generalize g.nodes[p]? = before at hp hg
  generalize nodes[p]? = after at hp ⊢
  cases hp with
  | none => exact hg
  | some hsame => exact (hsame.carries_iff b).2 hg

lemma neededBy_of_same {nodes : PathMap GraphNode} {g : Graph}
    (h : ∀ q : Path, Option.Rel GraphNode.Same g.nodes[q]? nodes[q]?) (q p : Path) :
    Graph.NeededBy ⟨nodes⟩ q p ↔ g.NeededBy q p := by
  have hq := h q
  simp only [Graph.NeededBy, Graph.node?]
  generalize g.nodes[q]? = before at hq ⊢
  generalize nodes[q]? = after at hq ⊢
  cases hq with
  | none => simp
  | some hsame => simp [hsame.dependents.mem_iff]

lemma held_of_same {nodes : PathMap GraphNode} {g : Graph}
    (h : ∀ q : Path, Option.Rel GraphNode.Same g.nodes[q]? nodes[q]?) (hg : g.Held p) :
    Graph.Held ⟨nodes⟩ p := by
  intro n hn
  have hp := h p
  rw [Graph.node?] at hn
  rw [hn] at hp
  obtain ⟨n₀, hn₀, hsame⟩ := PathMap.exists_of_rel hp
  have hold := Graph.isOrphan_eq_false_iff.1 (hg n₀ hn₀)
  rw [Graph.isOrphan_eq_false_iff, hsame.inputDigest]
  simpa only [hsame.dependencies.mem_iff, hsame.dependents.mem_iff] using hold

end Cache
end Rebuild
