import Rebuild.Cache.Record

/-!
# The stores of the cache

The cache directory holds two documents: the entries, and the graph together with the records of
files.  A document that is missing, cannot be read, or has another version counts as empty, and a
build then starts cold instead of failing.
-/

namespace Rebuild

/-- The version of both documents. -/
def storeVersion : Nat := 1

/-- The file of the entries. -/
def entriesFile : Path := ⟨"cache-entries.json"⟩

/-- The file of the graph. -/
def graphFile : Path := ⟨"dependency-graph.json"⟩

/-- The nodes of the graph and the records of files. -/
structure GraphDocument where
  nodes : PathMap GraphNode := ∅
  records : PathMap FileRecord := ∅

namespace CacheStore

/-- What a document says beside its version and moment, if it has the right version. -/
def document? {α : Type} (names : List String) (content : Json.Record → Option α) (value : Json) :
    Option α := do
  let r ← Json.record? (["version", "timestamp"] ++ names) value
  let version ← Json.Record.required? r "version" Json.word32?
  let _ ← Json.Record.required? r "timestamp" Timestamp.ofJson?
  let found ← content r
  if version = storeVersion then some found else none

/-- The content of a document in a file. -/
def load? {α : Type} (names : List String) (content : Json.Record → Option α) (tree : FileTree)
    (p : Path) : Option α :=
  match tree.readText p with
  | .ok text => (Json.parse? text).bind (document? names content)
  | .error _ => none

/-- The entries in the directory. -/
def loadEntries (tree : FileTree) (directory : Path) : PathMap CacheEntry :=
  (load? ["entries"]
    (fun r => Json.Record.required? r "entries" (PathMap.ofJson? CacheEntry.ofJson?))
    tree (directory.join entriesFile)).getD ∅

/-- The graph document in the directory. -/
def loadGraph (tree : FileTree) (directory : Path) : GraphDocument :=
  (load? ["nodes", "file_hashes"]
    (fun r => do
      let nodes ← Json.Record.required? r "nodes" (PathMap.ofJson? GraphNode.ofJson?)
      let records ← Json.Record.required? r "file_hashes" (PathMap.ofJson? FileRecord.ofJson?)
      return { nodes, records })
    tree (directory.join graphFile)).getD {}

/-- The text of a document. -/
def render (now : Timestamp) (content : List (String × Json)) : String :=
  Json.pretty (.object ([("version", Json.nat storeVersion), ("timestamp", now.toJson)] ++ content))

/-- The text of the entries. -/
def renderEntries (now : Timestamp) (entries : PathMap CacheEntry) : String :=
  render now [("entries", entries.toJson CacheEntry.toJson)]

/-- The text of the graph document. -/
def renderGraph (now : Timestamp) (content : GraphDocument) : String :=
  render now [("nodes", content.nodes.toJson GraphNode.toJson),
    ("file_hashes", content.records.toJson FileRecord.toJson)]

/-- The error of a document that could not be written. -/
def writeError (p : Path) : BuildError → BuildError
  | .fileSystem _ _ cause => .storeFailure p "write" cause
  | error => error

/-- The tree with a document written. -/
def writeDocument (faults : Faults) (fresh : String) (now : Timestamp) (tree : FileTree) (p : Path)
    (text : String) : FileTree × Except BuildError Unit :=
  match tree.writeAtomic faults fresh p ⟨text.toUTF8, some now⟩ with
  | (tree, .ok ()) => (tree, .ok ())
  | (tree, .error error) => (tree, .error (writeError p error))

/-- The tree without a document; one that is not there is no error. -/
def removeDocument (tree : FileTree) (p : Path) : Except BuildError FileTree :=
  match tree.removeFile p with
  | .ok tree => .ok tree
  | .error .notFound => .ok tree
  | .error cause => .error (.storeFailure p "remove" cause)

end CacheStore
end Rebuild
