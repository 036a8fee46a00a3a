import Rebuild.Proofs.Cache.Documents
import Rebuild.Proofs.Cache.Storing
import Rebuild.Proofs.Files.Replacing
import Rebuild.Proofs.Graph.Edges

/-!
# Saving and opening again

A save that succeeds leaves both documents in the directory of the cache, and a cache that is opened
there answers as the saved one does: `load_save`.

* **What reads back.**  `Cache.Storable` is kept by every operation on files that a disk can hold
  (`FileTree.Dated`).
* **Two documents.**  The second write leaves the first document alone (`readText_of_save`).
-/

namespace Rebuild

/-! ## What reads back -/

/-- The files of the tree have moments and sizes that read back. -/
def FileTree.Dated (tree : FileTree) : Prop :=
  ∀ p f, tree.find? p = .ok (.file f) → (∀ t ∈ f.modified, t.Reads) ∧ f.bytes.size < UInt64.size

lemma FileRecord.storable_ofFile {tree : FileTree} (h : tree.Dated) {p : Path} {r : FileRecord}
    (hr : FileRecord.ofFile tree p = .ok r) : r.Storable := by
  simp only [FileRecord.ofFile] at hr
  cases hfind : tree.find? p with
  | error cause =>
      rw [hfind] at hr
      cases hr
  | ok e =>
      rw [hfind] at hr
      cases e with
      | directory => cases hr
      | file f =>
          cases hr
          exact ⟨(h p f hfind).1, (h p f hfind).2⟩

namespace Graph

/-- All notes of the graph read back. -/
def Storable (g : Graph) : Prop := g.nodes.Every GraphNode.Storable

variable {g : Graph} {p : Path}

lemma storable_empty : Storable {} := PathMap.every_empty

lemma Storable.ensure (h : g.Storable) (p : Path) : (g.ensure p).Storable :=
  PathMap.Every.ensure h fun _ hv => nomatch hv

lemma Storable.adjust (h : g.Storable) {f : GraphNode → GraphNode}
    (hf : ∀ n, n.Storable → (f n).Storable) (p : Path) : (g.adjust p f).Storable :=
  PathMap.Every.adjust h hf p

lemma Storable.pruneOrphan (h : g.Storable) (p : Path) : (g.pruneOrphan p).Storable := by
  simp only [Graph.pruneOrphan]
  cases g.node? p with
  | none => exact h
  | some n =>
      simp only
      split_ifs
      · exact PathMap.Every.erase h p
      · exact h

lemma Storable.dropEdge (h : g.Storable) (p d : Path) : (dropEdge p g d).Storable := by
  refine Storable.pruneOrphan (Storable.adjust h ?_ d) d
  intro n hn
  exact hn

lemma Storable.addEdge (h : g.Storable) (p d : Path) : (addEdge p g d).Storable := by
  refine Storable.adjust (h.ensure d) ?_ d
  intro n hn
  exact hn

lemma Storable.foldl {α : Type} {f : Graph → α → Graph} (hf : ∀ g x, Storable g → (f g x).Storable)
    (xs : List α) (h : g.Storable) : (xs.foldl f g).Storable := by
  induction xs generalizing g with
  | nil => exact h
  | cons x xs ih => exact ih (hf g x h)

lemma Storable.setDependencies (h : g.Storable) (p : Path) (needed : List Path) :
    (g.setDependencies p needed).Storable := by
  rw [setDependencies_eq]
  refine Storable.adjust ?_ ?_ p
  · refine .foldl (fun g d hg => hg.addEdge p d) _ ?_
    exact .foldl (fun g d hg => hg.dropEdge p d) _ (h.ensure p)
  · intro n hn
    exact hn

lemma Storable.recordBuild (h : g.Storable) (p : Path) (input output : Digest)
    {metadata : Option Json}
    (hmetadata : ∀ v ∈ metadata, v.Noted) : (g.recordBuild p input output metadata).Storable := by
  refine Storable.adjust (h.ensure p) ?_ p
  intro n _
  exact hmetadata

lemma Storable.remove (h : g.Storable) (p : Path) : (g.remove p).Storable := by
  refine Storable.pruneOrphan (Storable.adjust (h.setDependencies p []) ?_ p) p
  intro n _ v hv
  cases hv

lemma storable_ofNodes {nodes : PathMap GraphNode} (h : nodes.Every GraphNode.Storable) :
    (ofNodes nodes).Storable := by
  refine .foldl (fun g e hg => hg.addEdge e.1 e.2) _ ?_
  intro p n hn
  rw [PathMap.getElem?_map] at hn
  obtain ⟨m, hm, rfl⟩ := Option.map_eq_some_iff.1 hn
  exact h p m hm

end Graph

namespace Cache

/-- What the cache knows reads back. -/
structure Storable (c : Cache) : Prop where
  entries : c.entries.Every CacheEntry.Storable
  records : c.records.Every FileRecord.Storable
  graph : c.graph.Storable

variable {c c' : Cache} {tree tree' : FileTree} {p q : Path}

lemma storable_cold (directory : Path) : Storable { directory } :=
  ⟨PathMap.every_empty, PathMap.every_empty, Graph.storable_empty⟩

lemma every_stampAll (h : tree.Dated) (ds : List Path) {state : PathMap FileRecord × PathMap Digest}
    (hrecords : state.1.Every FileRecord.Storable) :
    (stampAll tree ds state).1.Every FileRecord.Storable := by
  induction ds generalizing state with
  | nil => exact hrecords
  | cons d ds ih =>
      refine ih ?_
      simp only [stamp]
      cases state.1[d]? with
      | some r => exact hrecords
      | none =>
          cases hr : FileRecord.ofFile tree d with
          | error e => exact hrecords
          | ok r => exact hrecords.put (FileRecord.storable_ofFile h hr)

lemma Storable.store {now : Timestamp} {output : String} {dependencies : List Path}
    {metadata : Option Json} (h : c.Storable) (htree : tree.Dated) (hnow : now.Reads)
    (hmetadata : ∀ v ∈ metadata, v.Noted)
    (hstore : c.store tree now p output dependencies metadata = .ok c') : c'.Storable := by
  simp only [Cache.store] at hstore
  cases hr : FileRecord.ofFile tree p.normalize with
  | error e =>
      rw [hr] at hstore
      cases hstore
  | ok r =>
      rw [hr] at hstore
      cases hstore
      refine ⟨h.entries.put ⟨hnow, hmetadata⟩, ?_, ?_⟩
      · exact (every_stampAll htree _ h.records).put (FileRecord.storable_ofFile htree hr)
      · exact (h.graph.setDependencies _ _).recordBuild _ _ _ hmetadata

lemma Storable.invalidate (h : c.Storable) (p : Path) : (c.invalidate p).Storable :=
  ⟨h.entries.erase _, h.records.erase _, h.graph⟩

lemma Storable.removeFile (h : c.Storable) (p : Path) : (c.removeFile p).Storable :=
  ⟨h.entries.erase _, h.records.erase _, h.graph.remove _⟩

lemma Storable.sameContent (h : c.Storable) (hsame : c.SameContent c') : c'.Storable := by
  refine ⟨?_, ?_, ?_⟩
  · rw [hsame.entries]
    exact h.entries
  · rw [hsame.records]
    exact h.records
  · rw [hsame.graph]
    exact h.graph

/-! ## The two documents of a save -/

variable {faults : Faults} {fresh : String} {now : Timestamp}

lemma plainName_entriesFile : FileTree.PlainName entriesFile.text :=
  ⟨by decide, by decide, by decide, by decide⟩

lemma plainName_graphFile : FileTree.PlainName graphFile.text :=
  ⟨by decide, by decide, by decide, by decide⟩

/-- The names of temporary files begin with a dot. -/
lemma ne_temporaryName {name : String} (h : name.toList.head? ≠ some '.') (fresh : String) :
    name ≠ (FileTree.temporaryName fresh).text := by
  rintro rfl
  simp [FileTree.temporaryName, String.toList_append] at h

lemma writeDocument_ok {text : String} (h : tree.Rooted) (hfresh : '/' ∉ fresh.toList)
    (hwrite : CacheStore.writeDocument faults fresh now tree p text = (tree', .ok ())) :
    tree'.readText p = .ok text ∧ ∃ g, tree'.locate p = .ok g
      ∧ FileTree.Changes
        (fun names => names.getLast? = some (FileTree.temporaryName fresh).text ∨ names = g.names)
        tree tree' := by
  simp only [CacheStore.writeDocument] at hwrite
  split at hwrite
  · rename_i written hatomic
    cases hwrite
    obtain ⟨hfind, hchanges⟩ := FileTree.writeAtomic_ok h hfresh hatomic
    refine ⟨?_, hchanges⟩
    exact FileTree.readText_eq_ok_iff.2
      ⟨text.toUTF8, FileTree.readBytes_eq_ok_iff.2 ⟨_, hfind, rfl⟩, fromUTF8?_toUTF8 text⟩
  · cases hwrite

/-- After a save that succeeds, both documents hold what was written. -/
lemma readText_of_save (h : tree.Rooted) (hfresh : '/' ∉ fresh.toList)
    (hsave : c.save faults fresh now tree = (tree', .ok ())) :
    tree'.readText (c.directory.join entriesFile) = .ok (CacheStore.renderEntries now c.entries)
      ∧ tree'.readText (c.directory.join graphFile)
        = .ok (CacheStore.renderGraph now c.graphDocument) := by
  simp only [save] at hsave
  split at hsave
  · cases hsave
  · rename_i between hentries
    obtain ⟨hread, e, hlocate, hchanges⟩ := writeDocument_ok h hfresh hentries
    obtain ⟨hgraph, g, hlocate', hchanges'⟩ := writeDocument_ok hchanges.rooted hfresh hsave
    refine ⟨?_, hgraph⟩
    obtain ⟨bytes, hbytes, htext⟩ := FileTree.readText_eq_ok_iff.1 hread
    obtain ⟨f, hfind, hf⟩ := FileTree.readBytes_eq_ok_iff.1 hbytes
    obtain ⟨t, ht, hlook⟩ := FileTree.find?_eq_ok_iff.1 hfind
    have hname := (FileTree.locate_join plainName_entriesFile ht).1
    have hgname := (FileTree.locate_join plainName_graphFile hlocate').1
    have hlast : t.names.getLast? = some entriesFile.text := by
      rw [FileTree.names_eq_append hname, List.getLast?_concat]
    have hkept := hchanges'.find? ht hlook (by
      rintro (htemporary | hsame)
      · exact ne_temporaryName (by decide) fresh (Option.some.inj (hlast.symm.trans htemporary))
      · rw [hsame, FileTree.names_eq_append hgname, List.getLast?_concat] at hlast
        exact absurd (Option.some.inj hlast) (by decide))
    exact FileTree.readText_eq_ok_iff.2
      ⟨bytes, FileTree.readBytes_eq_ok_iff.2 ⟨f, hkept, hf⟩, htext⟩

/-! ## Opening again -/

/-- The cache `c'` answers as `c` does. -/
structure Reopened (c c' : Cache) : Prop where
  directory : c'.directory = c.directory
  entries : ∀ q : Path, Option.Rel CacheEntry.Same c.entries[q]? c'.entries[q]?
  records : ∀ q : Path, c'.records[q]? = c.records[q]?
  needs : ∀ p q, c'.graph.Needs p q ↔ c.graph.Needs p q
  inStep : c'.graph.InStep

lemma needs_of_same {nodes : PathMap GraphNode} {g : Graph}
    (h : ∀ q : Path, Option.Rel GraphNode.Same g.nodes[q]? nodes[q]?) (p q : Path) :
    Graph.Needs ⟨nodes⟩ p q ↔ g.Needs p q := by
  have hp := h p
  simp only [Graph.Needs, Graph.node?]
  generalize g.nodes[p]? = before at hp ⊢
  generalize nodes[p]? = after at hp ⊢
  cases hp with
  | none => simp
  | some hsame => simp [hsame.dependencies.mem_iff]

/-- What is in the tables that are opened after a save; the graph is repaired from its nodes. -/
lemma tables_of_save (hstorable : c.Storable) (h : tree.Rooted) (hnow : now.Reads)
    (hfresh : '/' ∉ fresh.toList) (hsave : c.save faults fresh now tree = (tree', .ok ())) :
    (∀ q : Path, Option.Rel CacheEntry.Same c.entries[q]? (load tree' c.directory).entries[q]?)
      ∧ (∀ q : Path, (load tree' c.directory).records[q]? = c.records[q]?)
      ∧ ∃ nodes, (load tree' c.directory).graph = Graph.ofNodes nodes
        ∧ (∀ q : Path, Option.Rel GraphNode.Same c.graph.nodes[q]? nodes[q]?)
        ∧ ∀ P, c.graph.nodes.Keys P → nodes.Keys P := by
  obtain ⟨hentries, hgraph⟩ := readText_of_save h hfresh hsave
  obtain ⟨hnodes, hkeys, hrecords⟩ :=
    CacheStore.loadGraph_render hgraph hnow hstorable.graph hstorable.records
  exact ⟨CacheStore.loadEntries_render hentries hnow hstorable.entries, hrecords, _, rfl, hnodes,
    hkeys⟩

/-- **What is saved is opened again.** -/
theorem load_save (hstorable : c.Storable) (h : tree.Rooted) (hnow : now.Reads)
    (hfresh : '/' ∉ fresh.toList) (hsave : c.save faults fresh now tree = (tree', .ok ())) :
    c.Reopened (load tree' c.directory) ∧ (load tree' c.directory).Storable := by
  obtain ⟨hentry, hrecord, nodes, hgraph, hnode, -⟩ := tables_of_save hstorable h hnow hfresh hsave
  refine ⟨⟨rfl, hentry, hrecord, fun p q => ?_, ?_⟩, ?_, ?_, ?_⟩
  · rw [hgraph, Graph.needs_ofNodes]
    exact needs_of_same hnode p q
  · rw [hgraph]
    exact Graph.inStep_ofNodes nodes
  · refine hstorable.entries.of_rel hentry fun e e' hsame he => ⟨?_, ?_⟩
    · rw [hsame.timestamp]
      exact he.timestamp
    · rw [hsame.metadata]
      exact he.metadata
  · intro p r hr
    exact hstorable.records p r ((hrecord p).symm.trans hr)
  · have hnodes : c.graph.nodes.Every GraphNode.Storable := hstorable.graph
    rw [hgraph]
    refine Graph.storable_ofNodes (hnodes.of_rel hnode fun n n' hsame hn => ?_)
    rw [GraphNode.Storable, hsame.metadata]
    exact hn

end Cache
end Rebuild
