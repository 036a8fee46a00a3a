import Rebuild.Cache.Store
import Rebuild.Path.Normal

/-!
# The build cache

Outputs by the content that they were made from.  The cache keeps an entry for each file that was
compiled, a record of each file that it has seen, and the graph of dependencies.

* **Storing.**  `Cache.store` stamps an entry with the digest of each dependency as it was recorded,
  or as it is now where there is no record.
* **Asking.**  `Cache.get` compares an entry's stamps with the records; `Cache.needsRecompilation`
  also compares the records with the files themselves, one level deep.  What lies deeper is the
  matter of `Cache.affected`.
* **Keeping.**  `Cache.save` and `Cache.load`.

Every operation takes the file tree as it is at that moment.
-/

namespace Rebuild

/-- What the cache holds, and what it was asked since it was opened. -/
structure Cache where
  /-- The directory of the stores. -/
  directory : Path
  entries : PathMap CacheEntry := ∅
  records : PathMap FileRecord := ∅
  graph : Graph := {}
  hits : Nat := 0
  misses : Nat := 0
  stores : Nat := 0
  invalidations : Nat := 0

/-- The numbers that describe a cache. -/
structure CacheStats where
  entries : Nat
  trackedFiles : Nat
  graphNodes : Nat
  hits : Nat
  misses : Nat
  stores : Nat
  invalidations : Nat
  deriving DecidableEq, Repr

/-- The part of lookups that found an entry. -/
def CacheStats.hitRate (s : CacheStats) : Float :=
  if s.hits + s.misses = 0 then 0.0
  else Float.ofNat s.hits / Float.ofNat (s.hits + s.misses)

namespace Cache

/-- The cache in a directory, with what the stores there hold. -/
def load (tree : FileTree) (directory : Path) : Cache :=
  let content := CacheStore.loadGraph tree directory
  { directory
    entries := CacheStore.loadEntries tree directory
    records := content.records
    graph := Graph.ofNodes content.nodes }

/-! ## Asking -/

/-- The record of a file. -/
def record? (c : Cache) (p : Path) : Option FileRecord := c.records[p.normalize]?

/-- The node of a file. -/
def node? (c : Cache) (p : Path) : Option GraphNode := c.graph.node? p.normalize

/-- The digest of a file as it is now, if it can be read. -/
def currentDigest? (tree : FileTree) (p : Path) : Option Digest :=
  match FileRecord.ofFile tree p with
  | .ok r => some r.digest
  | .error _ => none

/-- The entry's stamp of a dependency agrees with the record. -/
def stampAgrees (c : Cache) (e : CacheEntry) (dependency : Path) : Bool :=
  match e.dependencyDigests[dependency]?, c.records[dependency]? with
  | some stamp, some record => stamp == record.digest
  | _, _ => false

/-- The record of a dependency agrees with the file. -/
def recordAgrees (c : Cache) (tree : FileTree) (dependency : Path) : Bool :=
  match c.records[dependency]?, currentDigest? tree dependency with
  | some record, some now => record.digest == now
  | _, _ => false

/-- The file has to be compiled: it cannot be read, was never compiled, has changed, or has a
dependency that is not as it was. -/
def needsRecompilation (c : Cache) (tree : FileTree) (p : Path) : Bool :=
  let p := p.normalize
  match currentDigest? tree p, c.records[p]?, c.entries[p]? with
  | some now, some record, some entry =>
    record.digest != now ||
      entry.dependencies.any fun d => !(c.stampAgrees entry d && c.recordAgrees tree d)
  | _, _, _ => true

/-- The entry of a file that has not changed since, with all stamps as recorded. -/
def validEntry? (c : Cache) (tree : FileTree) (p : Path) : Option CacheEntry :=
  match c.entries[p]?, currentDigest? tree p with
  | some entry, some now =>
    if entry.inputDigest = now ∧ entry.dependencies.all (c.stampAgrees entry) then some entry
    else none
  | _, _ => none

/-- The entry of a file if it is valid, and the cache with the question counted. -/
def get (c : Cache) (tree : FileTree) (p : Path) : Cache × Option CacheEntry :=
  match c.validEntry? tree p.normalize with
  | some entry => ({ c with hits := c.hits + 1 }, some entry)
  | none => ({ c with misses := c.misses + 1 }, none)

/-- The files and all that depend on them, each once. -/
def affected (c : Cache) (changed : List Path) : List Path :=
  c.graph.affected (changed.map Path.normalize)

/-- The numbers of the cache. -/
def stats (c : Cache) : CacheStats where
  entries := c.entries.size
  trackedFiles := c.records.size
  graphNodes := c.graph.size
  hits := c.hits
  misses := c.misses
  stores := c.stores
  invalidations := c.invalidations

/-! ## Storing -/

/-- The records and stamps after a dependency: the digest on record or, at first sight, the one of
the file, which is then on record too. -/
def stamp (tree : FileTree) (state : PathMap FileRecord × PathMap Digest) (dependency : Path) :
    PathMap FileRecord × PathMap Digest :=
  match state.1[dependency]? with
  | some record => (state.1, state.2.put dependency record.digest)
  | none =>
    match FileRecord.ofFile tree dependency with
    | .ok record => (state.1.put dependency record, state.2.put dependency record.digest)
    | .error _ => state

/-- The cache with a successful compile of a file. -/
def store (c : Cache) (tree : FileTree) (now : Timestamp) (p : Path) (output : String)
    (dependencies : List Path) (metadata : Option Json) : Except BuildError Cache := do
  let p := p.normalize
  let record ← FileRecord.ofFile tree p
  let dependencies := dependencies.map Path.normalize
  let (records, stamps) := dependencies.foldl (stamp tree) (c.records, ∅)
  let outputDigest := Digest.ofText output
  let graph := (c.graph.setDependencies p dependencies).recordBuild p record.digest outputDigest
    metadata
  let entry : CacheEntry := {
    inputDigest := record.digest
    output
    outputDigest
    dependencies
    dependencyDigests := stamps
    timestamp := now
    metadata }
  return { c with
    records := records.put p record
    entries := c.entries.put p entry
    graph
    stores := c.stores + 1 }

/-! ## Forgetting -/

/-- The cache without the entry and record of a file; what the graph knows stays. -/
def invalidate (c : Cache) (p : Path) : Cache :=
  let p := p.normalize
  let known := c.entries.contains p || c.records.contains p
  { c with
    entries := c.entries.erase p
    records := c.records.erase p
    invalidations := if known then c.invalidations + 1 else c.invalidations }

/-- The cache without anything about a file, except that others need it. -/
def removeFile (c : Cache) (p : Path) : Cache :=
  let p := p.normalize
  { c with
    entries := c.entries.erase p
    records := c.records.erase p
    graph := c.graph.remove p
    invalidations := c.invalidations + 1 }

/-- The empty cache, and the tree without its stores. -/
def clear (c : Cache) (tree : FileTree) : Cache × FileTree × Except BuildError Unit :=
  let cleared : Cache := {
    directory := c.directory
    hits := c.hits
    misses := c.misses
    stores := c.stores
    invalidations := c.invalidations + c.entries.size }
  match CacheStore.removeDocument tree (c.directory.join entriesFile) with
  | .error error => (cleared, tree, .error error)
  | .ok tree =>
    match CacheStore.removeDocument tree (c.directory.join graphFile) with
    | .error error => (cleared, tree, .error error)
    | .ok tree => (cleared, tree, .ok ())

/-! ## Keeping -/

/-- What the graph document holds. -/
def graphDocument (c : Cache) : GraphDocument := ⟨c.graph.nodes, c.records⟩

/-- The tree with both stores written, the entries first. -/
def save (c : Cache) (faults : Faults) (fresh : String) (now : Timestamp) (tree : FileTree) :
    FileTree × Except BuildError Unit :=
  match CacheStore.writeDocument faults fresh now tree (c.directory.join entriesFile)
      (CacheStore.renderEntries now c.entries) with
  | (tree, .error error) => (tree, .error error)
  | (tree, .ok ()) =>
    CacheStore.writeDocument faults fresh now tree (c.directory.join graphFile)
      (CacheStore.renderGraph now c.graphDocument)

end Cache
end Rebuild
