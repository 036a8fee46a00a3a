import Rebuild.Graph.Basic
import Rebuild.Files.AtomicWrite
import Rebuild.Json.Printer
import Rebuild.Path.Json

/-!
# What the cache keeps

The records of the cache, and their JSON: the state of a file when it was looked at last
(`FileRecord`), what came out of a file and under which circumstances (`CacheEntry`), and the nodes of
the graph.  `FileRecord.ofFile` takes the state of a file now.
-/

namespace Rebuild

/-- A file as it was seen last. -/
structure FileRecord where
  path : Path
  digest : Digest
  modified : Option Timestamp
  size : Nat
  deriving DecidableEq, Repr

/-- The output of a file that was compiled. -/
structure CacheEntry where
  /-- The digest of the file that was compiled. -/
  inputDigest : Digest
  output : String
  outputDigest : Digest
  dependencies : List Path
  /-- The digest of each dependency, as far as it was known. -/
  dependencyDigests : PathMap Digest
  timestamp : Timestamp
  metadata : Option Json

namespace FileRecord

/-- The state of a file. -/
def ofFile (tree : FileTree) (p : Path) : Except BuildError FileRecord :=
  match tree.find? p with
  | .error cause => .error (.fileSystem p "open file for hashing" cause)
  | .ok .directory => .error (.fileSystem p "read file chunk for hashing" .isDirectory)
  | .ok (.file f) => .ok ⟨p, Digest.ofBytes f.bytes, f.modified, f.bytes.size⟩

end FileRecord

/-! ## Digests and moments as JSON -/

/-- A digest as JSON. -/
def Digest.toJson (d : Digest) : Json := .string d.text

/-- The digest that a JSON string writes. -/
def Digest.ofJson? (value : Json) : Option Digest := value.string?.map Digest.mk

/-- A moment as JSON. -/
def Timestamp.toJson (t : Timestamp) : Json := .string t.text

/-- The moment that a JSON string writes. -/
def Timestamp.ofJson? (value : Json) : Option Timestamp := value.string?.bind Timestamp.parse?

/-! ## Records as JSON -/

namespace FileRecord

/-- A record as JSON. -/
def toJson (r : FileRecord) : Json :=
  .object [("path", r.path.toJson), ("content_hash", r.digest.toJson),
    ("mtime", .ofOption (r.modified.map Timestamp.toJson)), ("size", Json.nat r.size)]

/-- The record in a JSON value. -/
def ofJson? (value : Json) : Option FileRecord := do
  let r ← Json.record? ["path", "content_hash", "mtime", "size"] value
  return {
    path := ← Json.Record.required? r "path" Path.ofJson?
    digest := ← Json.Record.required? r "content_hash" Digest.ofJson?
    modified := ← Json.Record.optional? r "mtime" Timestamp.ofJson?
    size := ← Json.Record.required? r "size" Json.word64? }

end FileRecord

namespace GraphNode

/-- A node as JSON. -/
def toJson (n : GraphNode) : Json :=
  .object <|
    [("path", n.path.toJson), ("dependencies", n.dependencies.toJson),
      ("dependents", n.dependents.toJson),
      ("input_hash", .ofOption (n.inputDigest.map Digest.toJson)),
      ("output_hash", .ofOption (n.outputDigest.map Digest.toJson))] ++
    Json.optionalMember "metadata" n.metadata

/-- The node in a JSON value. -/
def ofJson? (value : Json) : Option GraphNode := do
  let r ← Json.recordWith? 1
    ["path", "dependencies", "dependents", "input_hash", "output_hash", "metadata"] value
  return {
    path := ← Json.Record.required? r "path" Path.ofJson?
    dependencies := ← Json.Record.required? r "dependencies" PathSet.ofJson?
    dependents := ← Json.Record.required? r "dependents" PathSet.ofJson?
    inputDigest := ← Json.Record.optional? r "input_hash" Digest.ofJson?
    outputDigest := ← Json.Record.optional? r "output_hash" Digest.ofJson?
    metadata := ← Json.Record.withDefault? r "metadata" Json.metadata? none }

end GraphNode

namespace CacheEntry

/-- The members of an entry, its moment given apart. -/
def members (e : CacheEntry) (timestamp : List (String × Json)) : List (String × Json) :=
  [("input_hash", e.inputDigest.toJson), ("output", .string e.output),
    ("output_hash", e.outputDigest.toJson), ("dependencies", Path.listToJson e.dependencies),
    ("dependency_hashes", e.dependencyDigests.toJson Digest.toJson)] ++
  timestamp ++ Json.optionalMember "metadata" e.metadata

/-- An entry as JSON. -/
def toJson (e : CacheEntry) : Json :=
  .object (e.members [("timestamp", e.timestamp.toJson)])

/-- The entry in a JSON value. -/
def ofJson? (value : Json) : Option CacheEntry := do
  let r ← Json.recordWith? 1
    ["input_hash", "output", "output_hash", "dependencies", "dependency_hashes", "timestamp",
      "metadata"] value
  return {
    inputDigest := ← Json.Record.required? r "input_hash" Digest.ofJson?
    output := ← Json.Record.required? r "output" Json.string?
    outputDigest := ← Json.Record.required? r "output_hash" Digest.ofJson?
    dependencies := ← Json.Record.required? r "dependencies" (Json.list? Path.ofJson?)
    dependencyDigests :=
      ← Json.Record.required? r "dependency_hashes" (PathMap.ofJson? Digest.ofJson?)
    timestamp := ← Json.Record.required? r "timestamp" Timestamp.ofJson?
    metadata := ← Json.Record.withDefault? r "metadata" Json.metadata? none }

end CacheEntry
end Rebuild
