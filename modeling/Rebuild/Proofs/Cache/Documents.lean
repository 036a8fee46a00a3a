import Rebuild.Cache.Store
import Rebuild.Proofs.Json.Records
import Rebuild.Proofs.Path.Json

/-!
# The stores read back

What the cache writes into its two documents comes back from them, up to the inner shape of sets and
tables (`CacheEntry.Same`, `GraphNode.Same`).  Assumed are moments whose text reads back, sizes of
64 bits, and notes in sorted form without fractions, nested not too deep (`Storable`).

* **Parts.**  Records, nodes and entries: `exists_ofJson?`.
* **Documents.**  `loadEntries_render` and `loadGraph_render`.
-/

namespace Rebuild

/-! ## Parts -/

/-- The text of a moment reads back. -/
def Timestamp.Reads (t : Timestamp) : Prop := Timestamp.parse? t.text = some t

/-- A note that reads back from inside a document. -/
structure Json.Noted (v : Json) : Prop where
  plain : Json.Plain 124 v
  sorted : v.sorted = v
  ne_null : v ≠ .null

/-- A note is written as a member, and nothing for no note. -/
lemma Json.metadata?_of_noted {v : Json} (h : v.Noted) : Json.metadata? v = some (some v) := by
  have hsorted := h.sorted
  cases v with
  | null => exact absurd rfl h.ne_null
  | bool | number | string | array | object => simp only [Json.metadata?, hsorted]

/-- Notes are read back from the member that they were written as, or left out for. -/
lemma Json.withDefault?_metadata {notes : Option Json} (h : ∀ v ∈ notes, v.Noted) :
    Json.Record.withDefault? (Json.optionalMember "metadata" notes) "metadata" Json.metadata? none
      = some notes := by
  cases notes with
  | none => rfl
  | some v =>
      rw [Json.optionalMember, Json.Record.withDefault?_cons, if_pos rfl,
        Json.metadata?_of_noted (h v rfl)]

lemma Json.plain_metadata {notes : Option Json} (h : ∀ v ∈ notes, v.Noted) :
    ∀ m ∈ Json.optionalMember "metadata" notes, Json.Plain 124 m.2 :=
  Json.plain_optionalMember fun v hv => (h v hv).plain

lemma Json.word64?_nat {n : Nat} (h : n < UInt64.size) : Json.word64? (Json.nat n) = some n := by
  rw [Json.word64?]
  exact Json.below?_nat h

namespace FileRecord

/-- The record reads back. -/
structure Storable (r : FileRecord) : Prop where
  modified : ∀ t ∈ r.modified, t.Reads
  size : r.size < UInt64.size

lemma ofJson?_toJson {r : FileRecord} (h : r.Storable) : ofJson? r.toJson = some r := by
  have hmodified : Json.nullable? Timestamp.ofJson? (.ofOption (r.modified.map Timestamp.toJson))
      = some r.modified := by
    cases hsome : r.modified with
    | none => rfl
    | some t =>
        have ht : Timestamp.parse? t.text = some t := h.modified t hsome
        show (Timestamp.parse? t.text).map some = some (some t)
        rw [ht]
        rfl
  have hpath : Path.ofJson? r.path.toJson = some r.path := rfl
  have hdigest : Digest.ofJson? r.digest.toJson = some r.digest := rfl
  -- The size stays closed: with `bind` unfolded, its bound would be counted down.
  rw [ofJson?, toJson, Json.record?_object (by simp)]
  simp only [Option.bind_eq_bind, Option.bind_some, Json.Record.required?_cons,
    Json.Record.optional?_cons, String.reduceEq, if_true, if_false, hpath, hdigest, hmodified,
    Json.word64?_nat h.size]
  rfl

lemma plain_toJson {n : Nat} {r : FileRecord} (h : r.Storable) : Json.Plain (n + 1) r.toJson := by
  have hmodified : Json.Plain n (.ofOption (r.modified.map Timestamp.toJson)) := by
    cases r.modified with
    | none => exact .scalar trivial
    | some t => exact .scalar trivial
  have hsize : Json.Plain n (Json.nat r.size) := by
    refine .scalar ⟨by omega, ?_⟩
    exact_mod_cast h.size
  refine .object ?_
  simp only [List.mem_cons, List.not_mem_nil, or_false, forall_eq_or_imp, forall_eq]
  exact ⟨.scalar trivial, .scalar trivial, hmodified, hsize⟩

end FileRecord

namespace GraphNode

/-- The nodes are equal, their sets as sets. -/
structure Same (n n' : GraphNode) : Prop where
  path : n'.path = n.path
  dependencies : n'.dependencies.Equiv n.dependencies
  dependents : n'.dependents.Equiv n.dependents
  inputDigest : n'.inputDigest = n.inputDigest
  outputDigest : n'.outputDigest = n.outputDigest
  metadata : n'.metadata = n.metadata

/-- The node reads back. -/
def Storable (n : GraphNode) : Prop := ∀ v ∈ n.metadata, v.Noted

lemma nullable?_digest (digest : Option Digest) :
    Json.nullable? Digest.ofJson? (.ofOption (digest.map Digest.toJson)) = some digest := by
  cases digest <;> rfl

lemma exists_ofJson? {n : GraphNode} (h : n.Storable) : ∃ n', ofJson? n.toJson = some n'
    ∧ n.Same n' := by
  obtain ⟨path, dependencies, dependents, inputDigest, outputDigest, metadata⟩ := n
  obtain ⟨dependencies', hdependencies, hmem⟩ := PathSet.exists_ofJson? dependencies
  obtain ⟨dependents', hdependents, hmem'⟩ := PathSet.exists_ofJson? dependents
  refine ⟨⟨path, dependencies', dependents', inputDigest, outputDigest, metadata⟩, ?_,
    ⟨rfl, hmem, hmem', rfl, rfl, rfl⟩⟩
  have hpath : Path.ofJson? path.toJson = some path := rfl
  have hnames : (["path", "dependencies", "dependents", "input_hash", "output_hash"]
      ++ ["metadata"]).Nodup := by decide
  rw [ofJson?, toJson, Json.recordWith?_object]
  · simp only [List.cons_append, List.nil_append, Option.bind_eq_bind, Option.bind_some,
      Json.Record.required?_cons, Json.Record.optional?_cons, Json.Record.withDefault?_cons,
      String.reduceEq, if_true, if_false, hpath, hdependencies, hdependents, nullable?_digest,
      Json.withDefault?_metadata h]
    rfl
  · rw [List.map_append]
    exact hnames.sublist ((List.Sublist.refl _).append Json.Record.names_optionalMember)

lemma plain_toJson {n : GraphNode} (h : n.Storable) : Json.Plain 125 n.toJson := by
  refine .object fun m hm => ?_
  simp only [List.mem_append, List.mem_cons, List.not_mem_nil, or_false] at hm
  have hdigest : ∀ d : Option Digest, Json.Plain 124 (.ofOption (d.map Digest.toJson)) := by
    intro d
    cases d <;> exact .scalar trivial
  rcases hm with (rfl | rfl | rfl | rfl | rfl) | hm
  · exact .scalar trivial
  · exact Path.plain_listToJson 123 _
  · exact Path.plain_listToJson 123 _
  · exact hdigest _
  · exact hdigest _
  · exact Json.plain_metadata h m hm

end GraphNode

namespace CacheEntry

/-- The entries are equal, their tables of digests as tables. -/
structure Same (e e' : CacheEntry) : Prop where
  inputDigest : e'.inputDigest = e.inputDigest
  output : e'.output = e.output
  outputDigest : e'.outputDigest = e.outputDigest
  dependencies : e'.dependencies = e.dependencies
  dependencyDigests : ∀ q : Path, e'.dependencyDigests[q]? = e.dependencyDigests[q]?
  timestamp : e'.timestamp = e.timestamp
  metadata : e'.metadata = e.metadata

lemma Same.refl (e : CacheEntry) : e.Same e := ⟨rfl, rfl, rfl, rfl, fun _ => rfl, rfl, rfl⟩

lemma Same.trans {e₁ e₂ e₃ : CacheEntry} (h₁ : e₁.Same e₂) (h₂ : e₂.Same e₃) : e₁.Same e₃ where
  inputDigest := h₂.inputDigest.trans h₁.inputDigest
  output := h₂.output.trans h₁.output
  outputDigest := h₂.outputDigest.trans h₁.outputDigest
  dependencies := h₂.dependencies.trans h₁.dependencies
  dependencyDigests q := (h₂.dependencyDigests q).trans (h₁.dependencyDigests q)
  timestamp := h₂.timestamp.trans h₁.timestamp
  metadata := h₂.metadata.trans h₁.metadata

/-- The entry reads back. -/
structure Storable (e : CacheEntry) : Prop where
  timestamp : e.timestamp.Reads
  metadata : ∀ v ∈ e.metadata, v.Noted

lemma exists_ofJson? {e : CacheEntry} (h : e.Storable) : ∃ e', ofJson? e.toJson = some e'
    ∧ e.Same e' := by
  obtain ⟨inputDigest, output, outputDigest, dependencies, dependencyDigests, timestamp,
    metadata⟩ := e
  obtain ⟨digests, hdigests, hanswers, -⟩ := PathMap.exists_ofJson? Digest.ofJson? Digest.toJson Eq
    dependencyDigests fun _ digest _ => ⟨digest, rfl, rfl⟩
  have htime : Timestamp.ofJson? timestamp.toJson = some timestamp := h.timestamp
  refine ⟨⟨inputDigest, output, outputDigest, dependencies, digests, timestamp, metadata⟩, ?_,
    ⟨rfl, rfl, rfl, rfl, fun q => (PathMap.eq_of_rel (hanswers q)).symm, rfl, rfl⟩⟩
  have hinput : Digest.ofJson? inputDigest.toJson = some inputDigest := rfl
  have houtput : Digest.ofJson? outputDigest.toJson = some outputDigest := rfl
  have htext : Json.string? (.string output) = some output := rfl
  have hnames : (["input_hash", "output", "output_hash", "dependencies", "dependency_hashes",
      "timestamp"] ++ ["metadata"]).Nodup := by decide
  rw [ofJson?, toJson, members, Json.recordWith?_object]
  · simp only [List.cons_append, List.nil_append, Option.bind_eq_bind, Option.bind_some,
      Json.Record.required?_cons, Json.Record.withDefault?_cons, String.reduceEq, if_true, if_false,
      hinput, houtput, htext, Path.list?_listToJson, hdigests, htime,
      Json.withDefault?_metadata h.metadata]
    rfl
  · rw [List.map_append]
    exact hnames.sublist ((List.Sublist.refl _).append Json.Record.names_optionalMember)

lemma plain_toJson {e : CacheEntry} (h : e.Storable) : Json.Plain 125 e.toJson := by
  refine .object fun m hm => ?_
  simp only [members, List.mem_append, List.mem_cons, List.not_mem_nil, or_false] at hm
  rcases hm with ((rfl | rfl | rfl | rfl | rfl) | rfl) | hm
  · exact .scalar trivial
  · exact .scalar trivial
  · exact .scalar trivial
  · exact Path.plain_listToJson 123 _
  · exact PathMap.plain_toJson _ 123 _ fun _ _ _ => .scalar trivial
  · exact .scalar trivial
  · exact Json.plain_metadata h.metadata m hm

end CacheEntry

/-! ## Documents -/

namespace CacheStore

variable {tree : FileTree} {directory p : Path} {now : Timestamp}

/-- A document reads back as the object that was written. -/
lemma parse?_render {content : List (String × Json)} (h : ∀ m ∈ content, Json.Plain 126 m.2) :
    Json.parse? (render now content)
      = some (.object
        ([("version", Json.nat storeVersion), ("timestamp", now.toJson)] ++ content)) := by
  refine Json.parse?_pretty (.object fun m hm => ?_)
  rcases List.mem_append.1 hm with hm | hm
  · simp only [List.mem_cons, List.not_mem_nil, or_false] at hm
    rcases hm with rfl | rfl
    · exact .scalar ⟨by decide, by decide⟩
    · exact .scalar trivial
  · exact h m hm

/-- The entries of the document in the directory, if it is accepted. -/
def entries? (tree : FileTree) (directory : Path) : Option (PathMap CacheEntry) :=
  load? ["entries"]
    (fun r => Json.Record.required? r "entries" (PathMap.ofJson? CacheEntry.ofJson?))
    tree (directory.join entriesFile)

/-- The nodes and records of the document in the directory, if it is accepted. -/
def graph? (tree : FileTree) (directory : Path) : Option GraphDocument :=
  load? ["nodes", "file_hashes"]
    (fun r => do
      let nodes ← Json.Record.required? r "nodes" (PathMap.ofJson? GraphNode.ofJson?)
      let records ← Json.Record.required? r "file_hashes" (PathMap.ofJson? FileRecord.ofJson?)
      return { nodes, records })
    tree (directory.join graphFile)

lemma loadEntries_eq (tree : FileTree) (directory : Path) :
    loadEntries tree directory = (entries? tree directory).getD ∅ := rfl

lemma loadGraph_eq (tree : FileTree) (directory : Path) :
    loadGraph tree directory = (graph? tree directory).getD {} := rfl

/-- The entries are accepted. -/
lemma exists_entries?_render {entries : PathMap CacheEntry}
    (hread : tree.readText (directory.join entriesFile) = .ok (renderEntries now entries))
    (hnow : now.Reads) (h : entries.Every CacheEntry.Storable) :
    ∃ entries', entries? tree directory = some entries'
      ∧ ∀ q : Path, Option.Rel CacheEntry.Same entries[q]? entries'[q]? := by
  obtain ⟨entries', hentries, hrel, -⟩ := PathMap.exists_ofJson? CacheEntry.ofJson? CacheEntry.toJson
    CacheEntry.Same entries fun p e he => CacheEntry.exists_ofJson? (h p e he)
  have hparse : Json.parse? (renderEntries now entries) = some (.object
      [("version", Json.nat storeVersion), ("timestamp", now.toJson),
        ("entries", entries.toJson CacheEntry.toJson)]) := by
    refine parse?_render fun m hm => ?_
    rw [List.mem_singleton.1 hm]
    exact PathMap.plain_toJson _ 125 _ fun p e he => CacheEntry.plain_toJson (h p e he)
  have htime : Timestamp.ofJson? now.toJson = some now := hnow
  have hversion : Json.word32? (Json.nat storeVersion) = some storeVersion :=
    Json.below?_nat (by decide)
  refine ⟨entries', ?_, hrel⟩
  rw [entries?, load?, hread]
  simp only [hparse, document?, Option.bind_eq_bind, Option.bind_some]
  rw [Json.record?_object (by simp)]
  simp [Json.Record.required?_cons, htime, hversion, hentries]

/-- **The entries read back.** -/
theorem loadEntries_render {entries : PathMap CacheEntry}
    (hread : tree.readText (directory.join entriesFile) = .ok (renderEntries now entries))
    (hnow : now.Reads) (h : entries.Every CacheEntry.Storable) (q : Path) :
    Option.Rel CacheEntry.Same entries[q]? (loadEntries tree directory)[q]? := by
  obtain ⟨entries', haccepted, hrel⟩ := exists_entries?_render hread hnow h
  rw [loadEntries_eq, haccepted]
  exact hrel q

/-- The graph document is accepted. -/
lemma exists_graph?_render {content : GraphDocument}
    (hread : tree.readText (directory.join graphFile) = .ok (renderGraph now content))
    (hnow : now.Reads) (hnodes : content.nodes.Every GraphNode.Storable)
    (hrecords : content.records.Every FileRecord.Storable) :
    ∃ content', graph? tree directory = some content'
      ∧ (∀ q : Path, Option.Rel GraphNode.Same content.nodes[q]? content'.nodes[q]?)
      ∧ (∀ P, content.nodes.Keys P → content'.nodes.Keys P)
      ∧ ∀ q : Path, content'.records[q]? = content.records[q]? := by
  obtain ⟨nodes, hnodes', hsame, hkeys⟩ := PathMap.exists_ofJson? GraphNode.ofJson? GraphNode.toJson
    GraphNode.Same content.nodes fun p n hn => GraphNode.exists_ofJson? (hnodes p n hn)
  obtain ⟨records, hrecords', heq, -⟩ := PathMap.exists_ofJson? FileRecord.ofJson? FileRecord.toJson Eq
    content.records fun p r hr => ⟨r, FileRecord.ofJson?_toJson (hrecords p r hr), rfl⟩
  have hparse : Json.parse? (renderGraph now content) = some (.object
      [("version", Json.nat storeVersion), ("timestamp", now.toJson),
        ("nodes", content.nodes.toJson GraphNode.toJson),
        ("file_hashes", content.records.toJson FileRecord.toJson)]) := by
    refine parse?_render fun m hm => ?_
    simp only [List.mem_cons, List.not_mem_nil, or_false] at hm
    rcases hm with rfl | rfl
    · exact PathMap.plain_toJson _ 125 _ fun p n hn => GraphNode.plain_toJson (hnodes p n hn)
    · exact PathMap.plain_toJson _ 125 _ fun p r hr => FileRecord.plain_toJson (hrecords p r hr)
  have htime : Timestamp.ofJson? now.toJson = some now := hnow
  have hversion : Json.word32? (Json.nat storeVersion) = some storeVersion :=
    Json.below?_nat (by decide)
  refine ⟨⟨nodes, records⟩, ?_, hsame, hkeys, fun q => (PathMap.eq_of_rel (heq q)).symm⟩
  rw [graph?, load?, hread]
  simp only [hparse, document?, Option.bind_eq_bind, Option.bind_some]
  rw [Json.record?_object (by simp)]
  simp [Json.Record.required?_cons, htime, hversion, hnodes', hrecords']

/-- **The graph document reads back.** -/
theorem loadGraph_render {content : GraphDocument}
    (hread : tree.readText (directory.join graphFile) = .ok (renderGraph now content))
    (hnow : now.Reads) (hnodes : content.nodes.Every GraphNode.Storable)
    (hrecords : content.records.Every FileRecord.Storable) :
    (∀ q : Path, Option.Rel GraphNode.Same content.nodes[q]? (loadGraph tree directory).nodes[q]?)
      ∧ (∀ P, content.nodes.Keys P → (loadGraph tree directory).nodes.Keys P)
      ∧ ∀ q : Path, (loadGraph tree directory).records[q]? = content.records[q]? := by
  obtain ⟨content', haccepted, hcontent⟩ := exists_graph?_render hread hnow hnodes hrecords
  rw [loadGraph_eq, haccepted]
  exact hcontent

end CacheStore
end Rebuild
