import Rebuild.Proofs.Cache.History
import Rebuild.Proofs.Cache.Tables
import Rebuild.Proofs.Graph.Spelling

/-!
# A cache that is opened again

A save keeps entries and records as they are, but of each edge only one end: the files that need a file
are left out when a graph is repaired from its nodes, and come back from the other ends.  What is opened
is nevertheless the same (`sameTables_load`), because in every history both ends of an edge know of it,
and all files are spelled in normal form.

* **Answers.**  Caches with the same tables give the same answers about all files (`SameTables.get`,
  `SameTables.needsRecompilation`, `SameTables.affected`).
* **Invariant.**  `Graph.Spelled` is kept by every step of a history (`normal_step`).
* **Endpoint.**  `load_answers`, for every history that ends with a save.
-/

namespace Rebuild.Cache

/-! ## Answers -/

/-- The caches hold the same entries, records and nodes. -/
structure SameTables (c c' : Cache) : Prop where
  entries : ∀ q : Path, Option.Rel CacheEntry.Same c.entries[q]? c'.entries[q]?
  records : ∀ q : Path, c'.records[q]? = c.records[q]?
  nodes : ∀ q : Path, Option.Rel GraphNode.Same (c.graph.node? q) (c'.graph.node? q)

namespace SameTables

variable {c c' : Cache} {e e' : CacheEntry}

lemma stampAgrees (h : c.SameTables c') (he : e.Same e') (d : Path) :
    c'.stampAgrees e' d = c.stampAgrees e d := by
  rw [Cache.stampAgrees, he.dependencyDigests, h.records, Cache.stampAgrees]

lemma recordAgrees (h : c.SameTables c') (tree : FileTree) (d : Path) :
    c'.recordAgrees tree d = c.recordAgrees tree d := by
  rw [Cache.recordAgrees, h.records, Cache.recordAgrees]

/-- The caches find the same entries. -/
theorem get (h : c.SameTables c') (tree : FileTree) (p : Path) :
    Option.Rel CacheEntry.Same (c.get tree p).2 (c'.get tree p).2 := by
  have hget : ∀ c : Cache, (c.get tree p).2 = c.validEntry? tree p.normalize := by
    intro c
    rw [Cache.get]
    cases c.validEntry? tree p.normalize <;> rfl
  rw [hget, hget, validEntry?, validEntry?]
  have hentry := h.entries p.normalize
  generalize c.entries[p.normalize]? = found at hentry ⊢
  generalize c'.entries[p.normalize]? = found' at hentry ⊢
  cases hentry with
  | none => exact .none
  | @some e e' hsame =>
      cases hnow : currentDigest? tree p.normalize with
      | none => exact .none
      | some now =>
          have hstamps : e'.dependencies.all (c'.stampAgrees e')
              = e.dependencies.all (c.stampAgrees e) := by
            rw [hsame.dependencies, funext (h.stampAgrees hsame)]
          simp only [hstamps, hsame.inputDigest]
          split_ifs
          · exact .some hsame
          · exact .none

/-- The caches say the same about which files have to be compiled. -/
theorem needsRecompilation (h : c.SameTables c') (tree : FileTree) (p : Path) :
    c'.needsRecompilation tree p = c.needsRecompilation tree p := by
  rw [Cache.needsRecompilation, Cache.needsRecompilation, h.records]
  cases currentDigest? tree p.normalize with
  | none => rfl
  | some now =>
      cases c.records[p.normalize]? with
      | none => rfl
      | some r =>
          have hentry := h.entries p.normalize
          generalize c.entries[p.normalize]? = found at hentry ⊢
          generalize c'.entries[p.normalize]? = found' at hentry ⊢
          cases hentry with
          | none => rfl
          | some hsame => simp only [hsame.dependencies, h.stampAgrees hsame, h.recordAgrees]

/-- The caches list the same files as affected by a change, in the same order. -/
theorem affected (h : c.SameTables c') (changed : List Path) :
    c'.affected changed = c.affected changed := by
  refine Graph.affected_congr (fun q => ?_) _
  have hnode := h.nodes q
  rw [Graph.dependents, Graph.dependents]
  generalize c.graph.node? q = found at hnode ⊢
  generalize c'.graph.node? q = found' at hnode ⊢
  cases hnode with
  | none => rfl
  | some hsame => exact hsame.dependents.toList_eq

end SameTables

/-! ## Spellings -/

variable {known : Set ByteArray} {s s' : Session} {faults : Faults} {fresh : String}
  {now : Timestamp} {tree tree' : FileTree} {directory : Path}

/-- All files of the graph are spelled in normal form. -/
def NormalGraph (c : Cache) : Prop := c.graph.Spelled fun p => p.normalize = p

/-- What is opened after a save is a repaired graph of nodes that are spelled as those of the cache. -/
lemma exists_nodes_of_save (hgood : s.Good known) (h : s.cache.NormalGraph) (hnow : now.Reads)
    (hfresh : '/' ∉ fresh.toList) (hsave : s.cache.save faults fresh now s.tree = (tree', .ok ())) :
    ∃ nodes, (load tree' s.cache.directory).graph = Graph.ofNodes nodes
      ∧ (∀ q : Path, Option.Rel GraphNode.Same s.cache.graph.nodes[q]? nodes[q]?)
      ∧ Graph.Spelled ⟨nodes⟩ fun p => p.normalize = p := by
  obtain ⟨-, -, nodes, hgraph, hnodes, hkeys⟩ :=
    tables_of_save hgood.storable hgood.ordinary.rooted hnow hfresh hsave
  refine ⟨nodes, hgraph, hnodes, hkeys _ h.keys, h.nodes.of_rel hnodes fun n n' hsame hn => ?_⟩
  exact ⟨hn.dependencies.of_equiv hsame.dependencies, hn.dependents.of_equiv hsame.dependents⟩

/-- **Every step keeps the spellings in normal form.** -/
lemma normal_step (hgood : s.Good known) (h : s.cache.NormalGraph)
    (hstep : Session.Step known s s') : s'.cache.NormalGraph := by
  cases hstep with
  | edit tree htree => exact h
  | @store now p output dependencies metadata cache hnow hmetadata hstore =>
      obtain ⟨r, e, -, -, -, -, hgraph⟩ := exists_tables hstore
      have hp := Path.normalize_normalize p
      show cache.graph.Spelled _
      rw [hgraph]
      exact (h.setDependencies hp fun _ => Path.normalize_of_mem_map).recordBuild hp _ _ _
  | get p =>
      show Graph.Spelled _ _
      rw [(sameContent_get s.cache s.tree p).graph]
      exact h
  | invalidate p => exact h
  | remove p => exact h.remove (Path.normalize_normalize p)
  | clear =>
      show Graph.Spelled _ _
      rw [(entries_clear s.cache s.tree).2]
      exact Graph.spelled_empty
  | reopen hnow hfresh htree hsave =>
      obtain ⟨nodes, hgraph, -, hspelled⟩ := exists_nodes_of_save hgood h hnow hfresh hsave
      show Graph.Spelled _ _
      rw [hgraph]
      exact Graph.spelled_ofNodes hspelled

/-- What holds at any point of a history. -/
lemma normal_of_steps (htree : tree.Ordinary known)
    (hsteps : Session.Steps known (Session.cold tree directory) s) :
    s.Good known ∧ s.cache.NormalGraph := by
  induction hsteps with
  | refl => exact ⟨.cold htree directory, Graph.spelled_empty⟩
  | tail _ hstep ih => exact ⟨ih.1.step hstep, normal_step ih.1 ih.2 hstep⟩

/-! ## Opening again -/

/-- Every file that is needed has a node among those that were saved. -/
lemma exists_node_of_needs {g : Graph} {nodes : PathMap GraphNode} (hstep : g.InStep)
    (hsame : ∀ q : Path, Option.Rel GraphNode.Same g.nodes[q]? nodes[q]?) {p q : Path}
    (hneeds : Graph.Needs ⟨nodes⟩ p q) : ∃ x, nodes[q]? = some x := by
  obtain ⟨n, hn, -⟩ := (hstep p q).1 ((needs_of_same hsame p q).1 hneeds)
  have hq := hsame q
  rw [show g.nodes[q]? = some n from hn] at hq
  cases hx : nodes[q]? with
  | none =>
      rw [hx] at hq
      cases hq
  | some x => exact ⟨x, rfl⟩

/-- A node that differs at most in its dependents, and does not differ there. -/
lemma same_of_bare {n x n' : GraphNode} (hsame : n.Same x) (hbare : Graph.bare n' = Graph.bare x)
    (hdependents : n'.dependents.Equiv n.dependents) : n.Same n' := by
  simp only [Graph.bare, GraphNode.mk.injEq, true_and] at hbare
  obtain ⟨hpath, hdependencies, hinput, houtput, hmetadata⟩ := hbare
  exact ⟨hpath.trans hsame.path, hdependencies ▸ hsame.dependencies, hdependents,
    hinput.trans hsame.inputDigest, houtput.trans hsame.outputDigest,
    hmetadata.trans hsame.metadata⟩

lemma mem_dependents_iff {g : Graph} {n : GraphNode} {p q : Path} (hn : g.node? q = some n) :
    p ∈ n.dependents ↔ g.NeededBy q p := by
  rw [Graph.NeededBy, hn]
  simp

/-- Repaired nodes are those that were saved: both ends of each edge knew of it, and the files that
need a file are listed by their normal forms. -/
lemma same_ofNodes {g : Graph} {nodes : PathMap GraphNode} (hstep : g.InStep)
    (hg : g.Spelled fun p => p.normalize = p)
    (hsame : ∀ q : Path, Option.Rel GraphNode.Same g.nodes[q]? nodes[q]?)
    (hnodes : Graph.Spelled ⟨nodes⟩ fun p => p.normalize = p) (q : Path) :
    Option.Rel GraphNode.Same (g.node? q) ((Graph.ofNodes nodes).node? q) := by
  have hbare := Graph.map_bare_ofNodes (fun p q => exists_node_of_needs hstep hsame) q
  have hq := hsame q
  cases hx : nodes[q]? with
  | none =>
      rw [hx, Option.map_none, Option.map_eq_none_iff] at hbare
      rw [hx] at hq
      cases hn : g.node? q with
      | none =>
          rw [hbare]
          exact .none
      | some n =>
          rw [show g.nodes[q]? = some n from hn] at hq
          cases hq
  | some x =>
      rw [hx, Option.map_some] at hbare
      rw [hx] at hq
      obtain ⟨n, hn, hnx⟩ := PathMap.exists_of_rel hq
      obtain ⟨n', hn', hb⟩ := Option.map_eq_some_iff.1 hbare
      have hdependents : n'.dependents.Equiv n.dependents := by
        refine PathSet.equiv_of_normal (hg.nodes q n hn).dependents
          ((Graph.spelled_ofNodes hnodes).nodes q n' hn').dependents fun p => ?_
        rw [mem_dependents_iff hn', mem_dependents_iff hn, ← Graph.inStep_ofNodes,
          Graph.needs_ofNodes, needs_of_same hsame, hstep]
      rw [hn', show g.node? q = some n from hn]
      exact .some (same_of_bare hnx hb hdependents)

/-- **What is saved is opened again, the graph included.** -/
theorem sameTables_load (hgood : s.Good known) (h : s.cache.NormalGraph) (hnow : now.Reads)
    (hfresh : '/' ∉ fresh.toList) (hsave : s.cache.save faults fresh now s.tree = (tree', .ok ())) :
    s.cache.SameTables (load tree' s.cache.directory) := by
  obtain ⟨hentries, hrecords, -⟩ :=
    tables_of_save hgood.storable hgood.ordinary.rooted hnow hfresh hsave
  obtain ⟨nodes, hgraph, hsame, hspelled⟩ := exists_nodes_of_save hgood h hnow hfresh hsave
  refine ⟨hentries, hrecords, fun q => ?_⟩
  rw [hgraph]
  exact same_ofNodes hgood.inStep h hsame hspelled q

/-- **A cache that is opened after a save is the saved one**: for every history that ends with a save,
it has the same entries, records and nodes, and gives the same answers about all files. -/
theorem load_answers (htree : tree.Ordinary known)
    (hsteps : Session.Steps known (Session.cold tree directory) s) (hnow : now.Reads)
    (hfresh : '/' ∉ fresh.toList) (hsave : s.cache.save faults fresh now s.tree = (tree', .ok ())) :
    s.cache.SameTables (load tree' s.cache.directory)
      ∧ ∀ files : FileTree,
        (∀ p, Option.Rel CacheEntry.Same (s.cache.get files p).2
          ((load tree' s.cache.directory).get files p).2)
        ∧ (∀ p, (load tree' s.cache.directory).needsRecompilation files p
          = s.cache.needsRecompilation files p)
        ∧ ∀ changed, (load tree' s.cache.directory).affected changed = s.cache.affected changed := by
  obtain ⟨hgood, hnormal⟩ := normal_of_steps htree hsteps
  have hsame := sameTables_load hgood hnormal hnow hfresh hsave
  exact ⟨hsame, fun files => ⟨hsame.get files, hsame.needsRecompilation files, hsame.affected⟩⟩

namespace PutBack

/-- The cache in which `b` needs `a` can be saved. -/
lemma exists_saved : ∃ s tree', Session.Steps PutBack.known (Session.cold (treeWith "1") ⟨"cache"⟩) s
    ∧ s.cache.save .none "0" PutBack.now s.tree = (tree', .ok ())
    ∧ (∃ e, (s.cache.get s.tree ⟨"b"⟩).2 = some e)
    ∧ s.cache.needsRecompilation s.tree ⟨"b"⟩ = false := by
  obtain ⟨c₁, c₂, e, hfirst, hsecond, hget, -, hneeds⟩ := exists_second
  obtain ⟨s, m, hsteps, rfl, htree, -⟩ :=
    exists_steps_back ordinary_one ordinary_two hfirst hsecond
  have hsaved : second.toOption.map (fun c => (c.save .none "0" PutBack.now (treeWith "1")).2.toOption)
      = some (some ()) := by
    decide +kernel
  have hcache : second = .ok s.cache := by
    rw [second, hfirst]
    exact hsecond
  rw [hcache] at hsaved
  rcases hsave : s.cache.save .none "0" PutBack.now (treeWith "1") with ⟨tree', error | _⟩
  · rw [Except.toOption, Option.map_some, hsave] at hsaved
    cases Option.some.inj hsaved
  · rw [← htree] at hsave hget hneeds
    exact ⟨s, tree', hsteps, hsave, ⟨e, hget⟩, hneeds⟩

end PutBack

/-- The cache that is opened has an entry for `b`, and `b` need not be compiled. -/
theorem load_answers_put_back : ∃ s tree' e,
    Session.Steps PutBack.known (Session.cold (PutBack.treeWith "1") ⟨"cache"⟩) s
      ∧ s.cache.save .none "0" PutBack.now s.tree = (tree', .ok ())
      ∧ ((load tree' s.cache.directory).get s.tree ⟨"b"⟩).2 = some e
      ∧ (load tree' s.cache.directory).needsRecompilation s.tree ⟨"b"⟩ = false
      ∧ ∀ changed, (load tree' s.cache.directory).affected changed = s.cache.affected changed := by
  obtain ⟨s, tree', hsteps, hsave, ⟨e, hget⟩, hneeds⟩ := PutBack.exists_saved
  obtain ⟨-, hanswers⟩ := load_answers PutBack.ordinary_one hsteps PutBack.reads_now (by decide) hsave
  obtain ⟨hgets, hneeded, haffected⟩ := hanswers s.tree
  have hrel := hgets ⟨"b"⟩
  rw [hget] at hrel
  cases hfound : ((load tree' s.cache.directory).get s.tree ⟨"b"⟩).2 with
  | none =>
      rw [hfound] at hrel
      cases hrel
  | some e' => exact ⟨s, tree', e', hsteps, hsave, hfound, (hneeded _).trans hneeds, haffected⟩

end Rebuild.Cache
