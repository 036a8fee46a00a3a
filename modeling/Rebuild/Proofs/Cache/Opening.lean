import Rebuild.Proofs.Cache.Tables
import Rebuild.Proofs.Graph.Spelling
import Rebuild.Proofs.Json.Rereading

/-!
# What is opened of documents that were saved

The two documents of a save hold whatever was noted, with fractions and nested at will, and need not be
accepted when they are opened.  But where both are accepted, all that the cache goes by comes back: the
digests, outputs and dependencies of the entries, the digests of the records, and the edges and builds
of the nodes.  Notes come back as `Json.renoted`, for an entry and its node in the same way.

* **Parts.**  What is read where an entry, a node or a record was written: `CacheEntry.reread_of_ofJson?`
  and the like.
* **Documents.**  `entries_reread` and `graph_reread`.
* **Endpoint.**  `Graph.Restored` and `Cache.Restored`, and the invariants of the tables that they keep
  (`Orderly.restored`; `orderly_load` where no entries are accepted).
-/

namespace Rebuild

/-! ## Parts -/

namespace Json

/-- What is read whole reads back as it is. -/
lemma reread_of_plain {n : Nat} {v : Json} (h : Plain n v) : v.reread = v := by
  induction h with
  | scalar hv => exact reread_of_scalar hv
  | array h ih =>
      rw [reread_array]
      exact congrArg Json.array (List.map_congr_left ih |>.trans (List.map_id _))
  | @object depth members h ih =>
      rw [reread_object]
      have hmembers : members.map (fun m => (m.1, m.2.reread)) = members.map id :=
        List.map_congr_left fun m hm => Prod.ext rfl (ih m hm)
      exact congrArg Json.object (hmembers.trans (List.map_id _))

lemma reread_string (s : String) : (Json.string s).reread = .string s :=
  reread_of_scalar trivial

/-- What is read of notes that were written, or left out for nothing. -/
def renoted (notes : Option Json) : Option Json := notes.bind fun v => (metadata? v.reread).join

lemma withDefault?_renoted (notes : Option Json) :
    Record.withDefault? (optionalMember "metadata" (notes.map reread)) "metadata" metadata? none
      = some (renoted notes) := by
  cases notes with
  | none => rfl
  | some v =>
      have hread : ∀ w, metadata? w = some (metadata? w).join := by
        intro w
        cases w <;> rfl
      rw [Option.map_some, optionalMember, Record.withDefault?_cons, if_pos rfl, hread]
      rfl

lemma map_optionalMember (name : String) (notes : Option Json) :
    (optionalMember name notes).map (fun m => (m.1, m.2.reread))
      = optionalMember name (notes.map reread) := by
  cases notes <;> rfl

end Json

namespace PathMap

variable {β γ : Type} {item : Json → Option γ} {write : β → Json} {R : β → γ → Prop}

/-- If the members are read, each of them is. -/
lemma exists_of_foldlM_put (write : β → Json) {members : List (Path × β)} {m m' : PathMap γ}
    (h : (members.map fun x => (x.1.text, write x.2)).foldlM
        (fun (m : PathMap γ) (x : String × Json) => return m.put ⟨x.1⟩ (← item x.2)) m = some m') :
    ∀ x ∈ members, ∃ v, item (write x.2) = some v := by
  induction members generalizing m with
  | nil => simp
  | cons x members ih =>
      rw [List.map_cons, List.foldlM_cons] at h
      cases hv : item (write x.2) with
      | none =>
          simp only [hv] at h
          cases h
      | some v =>
          simp only [hv] at h
          intro y hy
          rcases List.mem_cons.1 hy with rfl | hy
          · exact ⟨v, hv⟩
          · exact ih h y hy

/-- What is read where a table was written answers as the table does, with what is read of each value,
under the same keys. -/
lemma reread_of_ofJson? {m : PathMap β} {m' : PathMap γ}
    (h : ofJson? item (m.toJson write).reread = some m')
    (hread : ∀ v w, item (write v).reread = some w → R v w) (q : Path) :
    Option.Rel R m[q]? m'[q]? := by
  have htext : (m.toJson write).reread = m.toJson fun v => (write v).reread := by
    rw [toJson, Json.reread_object, List.map_map]
    rfl
  rw [htext] at h
  have hevery : m.Every fun v => ∃ w, item (write v).reread = some w ∧ R v w := by
    intro p v hv
    obtain ⟨p', hp', hmem⟩ :=
      Std.TreeMap.getElem?_eq_some_iff_exists_compare_eq_eq_and_mem_toList.1 hv
    obtain ⟨w, hw⟩ := exists_of_foldlM_put (fun v => (write v).reread) h (p', v) hmem
    exact ⟨w, hw, hread v w hw⟩
  obtain ⟨m₀, hm₀, hrel, -⟩ := exists_ofJson? item (fun v => (write v).reread) R m hevery
  cases h.symm.trans hm₀
  exact hrel q

end PathMap

lemma Digest.ofJson?_reread (d : Digest) : ofJson? d.toJson.reread = some d := by
  rw [toJson, Json.reread_string]
  rfl

namespace FileRecord

/-- The digest is what it was. -/
lemma reread_of_ofJson? {r r' : FileRecord} (h : ofJson? r.toJson.reread = some r') :
    r'.digest = r.digest := by
  rw [toJson, Json.reread_object, ofJson?, Json.record?_object (by simp)] at h
  simp only [List.map_cons, List.map_nil, Option.bind_eq_bind, Option.bind_some,
    Json.Record.required?_cons, Json.Record.optional?_cons, String.reduceEq, if_true, if_false,
    Digest.ofJson?_reread, Option.bind_eq_some_iff] at h
  obtain ⟨path, -, modified, -, size, -, h⟩ := h
  cases h
  rfl

end FileRecord

namespace GraphNode

/-- The node with what is read of its notes. -/
def renoted (n : GraphNode) : GraphNode := { n with metadata := Json.renoted n.metadata }

/-- The node is what it was, but for its notes. -/
lemma reread_of_ofJson? {n n' : GraphNode} (h : ofJson? n.toJson.reread = some n') :
    n.renoted.Same n' := by
  obtain ⟨path, dependencies, dependents, inputDigest, outputDigest, metadata⟩ := n
  obtain ⟨dependencies', hdependencies, hmem⟩ := PathSet.exists_ofJson? dependencies
  obtain ⟨dependents', hdependents, hmem'⟩ := PathSet.exists_ofJson? dependents
  have hpath : Path.ofJson? path.toJson.reread = some path := by
    rw [Path.toJson, Json.reread_string]
    rfl
  have hset : ∀ s : PathSet, s.toJson.reread = s.toJson := fun s =>
    Json.reread_of_plain (Path.plain_listToJson 0 s.toList)
  have hdigest : ∀ d : Option Digest, (Json.ofOption (d.map Digest.toJson)).reread
      = .ofOption (d.map Digest.toJson) := by
    intro d
    cases d <;> exact Json.reread_of_scalar trivial
  have hnames : (["path", "dependencies", "dependents", "input_hash", "output_hash"]
      ++ ["metadata"]).Nodup := by decide
  rw [toJson, Json.reread_object, List.map_append, Json.map_optionalMember, ofJson?,
    Json.recordWith?_object] at h
  · simp only [List.map_cons, List.map_nil, List.cons_append, List.nil_append, Option.bind_eq_bind,
      Option.bind_some, Json.Record.required?_cons, Json.Record.optional?_cons,
      Json.Record.withDefault?_cons, String.reduceEq, if_true, if_false, hpath, hset, hdependencies,
      hdependents, hdigest, nullable?_digest, Json.withDefault?_renoted] at h
    cases h
    exact ⟨rfl, hmem, hmem', rfl, rfl, rfl⟩
  · rw [List.map_append]
    exact hnames.sublist ((List.Sublist.refl _).append Json.Record.names_optionalMember)

end GraphNode

namespace CacheEntry

/-- The entry is what it was, but for its notes and its moment. -/
structure Reread (e e' : CacheEntry) : Prop where
  inputDigest : e'.inputDigest = e.inputDigest
  output : e'.output = e.output
  outputDigest : e'.outputDigest = e.outputDigest
  dependencies : e'.dependencies = e.dependencies
  dependencyDigests : ∀ q : Path, e'.dependencyDigests[q]? = e.dependencyDigests[q]?
  metadata : e'.metadata = Json.renoted e.metadata

lemma reread_of_ofJson? {e e' : CacheEntry} (h : ofJson? e.toJson.reread = some e') :
    e.Reread e' := by
  obtain ⟨inputDigest, output, outputDigest, dependencies, dependencyDigests, timestamp,
    metadata⟩ := e
  obtain ⟨digests, hdigests, hanswers, -⟩ := PathMap.exists_ofJson? Digest.ofJson? Digest.toJson Eq
    dependencyDigests fun _ digest _ => ⟨digest, rfl, rfl⟩
  have hpaths : (Path.listToJson dependencies).reread = Path.listToJson dependencies :=
    Json.reread_of_plain (Path.plain_listToJson 0 dependencies)
  have htable : (dependencyDigests.toJson Digest.toJson).reread
      = dependencyDigests.toJson Digest.toJson :=
    Json.reread_of_plain (PathMap.plain_toJson _ 0 _ fun _ _ _ => .scalar trivial)
  have htext : Json.string? (.string output) = some output := rfl
  have hnames : (["input_hash", "output", "output_hash", "dependencies", "dependency_hashes",
      "timestamp"] ++ ["metadata"]).Nodup := by decide
  rw [toJson, members, Json.reread_object, List.map_append, Json.map_optionalMember, ofJson?,
    Json.recordWith?_object] at h
  · simp only [List.map_cons, List.map_nil, List.cons_append, List.nil_append, Option.bind_eq_bind,
      Option.bind_some, Json.Record.required?_cons, Json.Record.withDefault?_cons, String.reduceEq,
      if_true, if_false, Digest.ofJson?_reread, Json.reread_string, hpaths, htable, htext,
      Path.list?_listToJson, hdigests, Json.withDefault?_renoted, Option.bind_eq_some_iff] at h
    obtain ⟨moment, -, h⟩ := h
    cases h
    exact ⟨rfl, rfl, rfl, rfl, fun q => (PathMap.eq_of_rel (hanswers q)).symm, rfl⟩
  · rw [List.map_append]
    exact hnames.sublist ((List.Sublist.refl _).append Json.Record.names_optionalMember)

end CacheEntry

/-! ## Documents -/

namespace CacheStore

variable {tree : FileTree} {directory p : Path} {now : Timestamp}

lemma members_of_record? {known : List String} {members : List (String × Json)} {r : Json.Record}
    (h : Json.record? known (.object members) = some r) : r = members := by
  simp only [Json.record?, Json.recordWith?] at h
  split at h
  · exact (Option.some.inj h).symm
  · cases h

/-- The content is read from the members as they are reread. -/
lemma content_of_load? {α : Type} {names : List String} {content : Json.Record → Option α}
    {written : List (String × Json)} {found : α}
    (hread : tree.readText p = .ok (render now written))
    (h : load? names content tree p = some found) :
    content (([("version", Json.nat storeVersion), ("timestamp", now.toJson)] ++ written).map
      fun m => (m.1, m.2.reread)) = some found := by
  rw [load?, hread] at h
  obtain ⟨value, hparse, hdocument⟩ := Option.bind_eq_some_iff.1 h
  have hvalue := Json.reread_of_parse? hparse
  rw [Json.reread_object] at hvalue
  simp only [document?, hvalue, Option.bind_eq_bind, Option.bind_eq_some_iff] at hdocument
  obtain ⟨r, hr, version, -, moment, -, found', hfound, hdone⟩ := hdocument
  rw [members_of_record? hr] at hfound
  split_ifs at hdone
  rw [hfound, hdone]

/-- **The entries come back**, but for notes and moments. -/
theorem entries_reread {entries entries' : PathMap CacheEntry}
    (hread : tree.readText (directory.join entriesFile) = .ok (renderEntries now entries))
    (h : entries? tree directory = some entries') (q : Path) :
    Option.Rel CacheEntry.Reread entries[q]? entries'[q]? := by
  have hcontent := content_of_load? hread h
  simp only [List.cons_append, List.nil_append, List.map_cons, List.map_nil,
    Json.Record.required?_cons, String.reduceEq, if_true, if_false] at hcontent
  exact PathMap.reread_of_ofJson? hcontent (fun _ _ he => CacheEntry.reread_of_ofJson? he) q

/-- **Nodes and records come back**, but for notes and moments. -/
theorem graph_reread {content content' : GraphDocument}
    (hread : tree.readText (directory.join graphFile) = .ok (renderGraph now content))
    (h : graph? tree directory = some content') (q : Path) :
    Option.Rel (fun n n' => n.renoted.Same n') content.nodes[q]? content'.nodes[q]?
      ∧ Option.Rel (fun r r' => r'.digest = r.digest) content.records[q]? content'.records[q]? := by
  have hcontent := content_of_load? hread h
  simp only [List.cons_append, List.nil_append, List.map_cons, List.map_nil,
    Json.Record.required?_cons, String.reduceEq, if_true, if_false, Option.bind_eq_bind,
    Option.bind_eq_some_iff] at hcontent
  obtain ⟨nodes, hnodes, records, hrecords, hdone⟩ := hcontent
  cases hdone
  exact ⟨PathMap.reread_of_ofJson? hnodes (fun _ _ hn => GraphNode.reread_of_ofJson? hn) q,
    PathMap.reread_of_ofJson? hrecords (fun _ _ hr => FileRecord.reread_of_ofJson? hr) q⟩

end CacheStore

/-! ## Tables -/

namespace Graph

/-- The graph with what is read of its notes. -/
def renoted (g : Graph) : Graph := ⟨g.nodes.map fun _ n => n.renoted⟩

variable {g : Graph} {p q : Path}

lemma node?_renoted (g : Graph) (p : Path) : g.renoted.node? p = (g.node? p).map GraphNode.renoted :=
  PathMap.getElem?_map g.nodes p GraphNode.renoted

lemma needs_renoted : g.renoted.Needs p q ↔ g.Needs p q := by
  rw [Needs, Needs, node?_renoted]
  cases g.node? p <;> simp [GraphNode.renoted]

lemma neededBy_renoted : g.renoted.NeededBy p q ↔ g.NeededBy p q := by
  rw [NeededBy, NeededBy, node?_renoted]
  cases g.node? p <;> simp [GraphNode.renoted]

lemma InStep.renoted (h : g.InStep) : g.renoted.InStep := by
  intro p q
  rw [needs_renoted, neededBy_renoted]
  exact h p q

lemma Held.renoted (h : g.Held p) : g.renoted.Held p := by
  intro n hn
  rw [node?_renoted] at hn
  obtain ⟨m, hm, rfl⟩ := Option.map_eq_some_iff.1 hn
  exact h m hm

/-- The build of a node, with what is read of its notes. -/
lemma Carries.renoted {b : Build} (h : g.Carries p (some b)) :
    g.renoted.Carries p (some ⟨b.input, b.output, Json.renoted b.metadata⟩) := by
  rw [Carries] at h ⊢
  rw [node?_renoted]
  cases hn : g.node? p with
  | none =>
      rw [hn] at h
      cases h
  | some n =>
      rw [hn] at h
      exact ⟨h.1, h.2.1, congrArg Json.renoted h.2.2⟩

/-- The second graph is what was opened of the nodes of the first one. -/
def Restored (g g' : Graph) : Prop :=
  ∃ nodes, g' = ofNodes nodes ∧ ∀ q : Path, Option.Rel GraphNode.Same g.renoted.nodes[q]? nodes[q]?

namespace Restored

variable {g' : Graph}

lemma needs_iff (h : g.Restored g') : g'.Needs p q ↔ g.Needs p q := by
  obtain ⟨nodes, rfl, hnodes⟩ := h
  rw [needs_ofNodes, Cache.needs_of_same hnodes, needs_renoted]

lemma inStep (h : g.Restored g') : g'.InStep := by
  obtain ⟨nodes, rfl, -⟩ := h
  exact inStep_ofNodes nodes

lemma normal (h : g.Restored g') (hnormal : g.Normal) : g'.Normal :=
  fun p q hneeds => hnormal p q (h.needs_iff.1 hneeds)

lemma held (h : g.Restored g') (hstep : g.InStep) (hheld : g.Held p) : g'.Held p := by
  obtain ⟨nodes, rfl, hnodes⟩ := h
  have hstep' : InStep ⟨nodes⟩ := by
    intro p q
    rw [Cache.needs_of_same hnodes, Cache.neededBy_of_same hnodes]
    exact hstep.renoted p q
  exact held_ofNodes hstep' (Cache.held_of_same hnodes hheld.renoted)

lemma carries (h : g.Restored g') {b : Build} (hb : g.Carries p (some b)) :
    g'.Carries p (some ⟨b.input, b.output, Json.renoted b.metadata⟩) := by
  obtain ⟨nodes, rfl, hnodes⟩ := h
  exact carries_ofNodes (Cache.carries_of_same hnodes hb.renoted)

end Restored

end Graph

namespace Cache

/-- The tables of the cache are in step, both ends of each edge know of it and are named in normal form,
and there is no orphan. -/
structure Orderly (c : Cache) : Prop where
  agree : c.AllAgree
  inStep : c.graph.InStep
  normal : c.graph.Normal
  held : ∀ p, c.graph.Held p

/-- The second cache is what was opened of the documents of the first one. -/
structure Restored (c c' : Cache) : Prop where
  entries : ∀ q : Path, Option.Rel CacheEntry.Reread c.entries[q]? c'.entries[q]?
  records : ∀ q : Path, Option.Rel (fun r r' => r'.digest = r.digest) c.records[q]? c'.records[q]?
  graph : c.graph.Restored c'.graph

variable {c c' : Cache} {tree : FileTree} {directory p : Path} {now : Timestamp}

/-- The graph of a cache, once its document is accepted. -/
lemma restored_ofNodes {content : GraphDocument}
    (hread : tree.readText (directory.join graphFile)
      = .ok (CacheStore.renderGraph now c.graphDocument))
    (haccepted : CacheStore.graph? tree directory = some content) :
    c.graph.Restored (Graph.ofNodes content.nodes) := by
  refine ⟨content.nodes, rfl, fun q => ?_⟩
  have hnode := (CacheStore.graph_reread hread haccepted q).1
  have hrenoted : c.graph.renoted.nodes[q]? = c.graph.nodes[q]?.map GraphNode.renoted :=
    Graph.node?_renoted c.graph q
  rw [hrenoted]
  simp only [graphDocument] at hnode
  generalize c.graph.nodes[q]? = before at hnode ⊢
  generalize content.nodes[q]? = after at hnode ⊢
  cases hnode with
  | none => exact .none
  | some hsame => exact .some hsame

/-- The documents of a cache, once they are accepted. -/
theorem restored_load
    (hentries : tree.readText (directory.join entriesFile)
      = .ok (CacheStore.renderEntries now c.entries))
    (hgraph : tree.readText (directory.join graphFile)
      = .ok (CacheStore.renderGraph now c.graphDocument))
    (haccepted : (CacheStore.entries? tree directory).isSome = true)
    (haccepted' : (CacheStore.graph? tree directory).isSome = true) :
    c.Restored (load tree directory) := by
  obtain ⟨entries, hfound⟩ := Option.isSome_iff_exists.1 haccepted
  obtain ⟨content, hfound'⟩ := Option.isSome_iff_exists.1 haccepted'
  have hload : load tree directory = {
      directory, entries, records := content.records, graph := Graph.ofNodes content.nodes } := by
    rw [load, CacheStore.loadEntries_eq, CacheStore.loadGraph_eq, hfound, hfound']
    rfl
  rw [hload]
  exact ⟨CacheStore.entries_reread hentries hfound,
    fun q => (CacheStore.graph_reread hgraph hfound' q).2, restored_ofNodes hgraph hfound'⟩

lemma Restored.exists_record (h : c.Restored c') {r : FileRecord} (hr : c.records[p]? = some r) :
    ∃ r', c'.records[p]? = some r' ∧ r'.digest = r.digest := by
  have hrecord := h.records p
  rw [hr] at hrecord
  cases hr' : c'.records[p]? with
  | none =>
      rw [hr'] at hrecord
      cases hrecord
  | some r' =>
      rw [hr'] at hrecord
      cases hrecord with
      | some hsame => exact ⟨r', rfl, hsame⟩

/-- Record and node of a file say what its entry says, as they did before. -/
lemma Restored.agrees (h : c.Restored c') {e e' : CacheEntry} (hreread : e.Reread e')
    (hold : c.Agrees p e) : c'.Agrees p e' where
  record := by
    obtain ⟨r, hr, hdigest⟩ := hold.record
    obtain ⟨r', hr', hsame⟩ := h.exists_record hr
    exact ⟨r', hr', by rw [hsame, hdigest, hreread.inputDigest]⟩
  build := by
    rw [hreread.inputDigest, hreread.outputDigest, hreread.metadata]
    exact h.graph.carries hold.build
  needs q := by
    rw [h.graph.needs_iff, hreread.dependencies]
    exact hold.needs q
  output := by
    rw [hreread.outputDigest, hreread.output]
    exact hold.output
  stamps q hq := by
    rw [Std.TreeMap.mem_iff_isSome_getElem?, hreread.dependencyDigests,
      ← Std.TreeMap.mem_iff_isSome_getElem?] at hq
    rw [hreread.dependencies]
    exact hold.stamps q hq

/-- What is opened is as orderly as what was saved. -/
theorem Orderly.restored (h : c.Orderly) (hrestored : c.Restored c') : c'.Orderly where
  agree p e' hentry' := by
    have hentry := hrestored.entries p
    rw [hentry'] at hentry
    obtain ⟨e, hentry, hreread⟩ := PathMap.exists_of_rel hentry
    exact hrestored.agrees hreread (h.agree p e hentry)
  inStep := hrestored.graph.inStep
  normal := hrestored.graph.normal h.normal
  held p := hrestored.graph.held h.inStep (h.held p)

lemma Orderly.of_empty (hentries : c.entries = ∅) (hgraph : c.graph = {}) : c.Orderly where
  agree := allAgree_of_empty hentries
  inStep := hgraph ▸ Graph.inStep_empty
  normal := hgraph ▸ Graph.normal_empty
  held _ := hgraph ▸ Graph.held_empty

/-- Without entries, a graph that was saved is enough, or none. -/
theorem orderly_load (hentries : CacheStore.entries? tree directory = none)
    (hgraph : ∀ content, CacheStore.graph? tree directory = some content →
      ∃ (c : Cache) (now : Timestamp), c.Orderly ∧ tree.readText (directory.join graphFile)
        = .ok (CacheStore.renderGraph now c.graphDocument)) : (load tree directory).Orderly := by
  have hempty : (load tree directory).entries = ∅ := by
    rw [load, CacheStore.loadEntries_eq, hentries, Option.getD_none]
  cases hfound : CacheStore.graph? tree directory with
  | none =>
      refine .of_empty hempty ?_
      rw [load, CacheStore.loadGraph_eq, hfound]
      rfl
  | some content =>
      obtain ⟨c, now, h, hread⟩ := hgraph content hfound
      have hrestored := restored_ofNodes hread hfound
      have hload : (load tree directory).graph = Graph.ofNodes content.nodes := by
        rw [load, CacheStore.loadGraph_eq, hfound, Option.getD_some]
      refine ⟨allAgree_of_empty hempty, ?_, ?_, fun p => ?_⟩
      · rw [hload]
        exact hrestored.inStep
      · rw [hload]
        exact hrestored.normal h.normal
      · rw [hload]
        exact hrestored.held h.inStep (h.held p)

end Cache
end Rebuild
