import Rebuild.Bundle.Report
import Rebuild.Compilation.Report
import Rebuild.Elimination.Basic
import Rebuild.Text.Decimal

/-!
# Reports as text

What the commands print for people to read.  Columns are filled up with blanks, and a text that is too
long for its column moves the others.
-/

namespace Rebuild

/-- Something that is printed. -/
inductive Printed where
  | line (text : String)
  /-- A value, as JSON on many lines. -/
  | document (value : Json)

namespace Printed

/-- The text that is printed, without the line end after it. -/
def text : Printed → String
  | line text => text
  | document value => value.pretty

end Printed

namespace CommandLine

/-! ## Columns and sizes -/

/-- The text filled up at its end. -/
def padRight (width : Nat) (text : String) : String :=
  text ++ String.ofList (List.replicate (width - text.length) ' ')

/-- The text filled up at its front. -/
def padLeft (width : Nat) (text : String) : String :=
  String.ofList (List.replicate (width - text.length) ' ') ++ text

/-- A number of bytes in the largest unit that it fills. -/
def humanSize (bytes : Nat) : String :=
  let size := (UInt64.ofNat bytes).toFloat
  if bytes < 1024 then bytes.repr ++ " B"
  else if bytes < 1024 * 1024 then Text.Decimal.toFixed 1 (size / 1024.0) ++ " KiB"
  else Text.Decimal.toFixed 2 (size / (1024.0 * 1024.0)) ++ " MiB"

/-- A share in percent. -/
def share (part total : Nat) : String :=
  padLeft 6 (Text.Decimal.toFixed 1 (percentage part total)) ++ "%"

/-! ## Reports -/

/-- A file that failed. -/
def failure (e : FileError) : String := "  ✗ " ++ e.path.text ++ ": " ++ e.message

/-- The summary of a compile. -/
def compileSummary (r : CompileReport) (hitRate : Float) : String :=
  "Compiled " ++ r.compiled.length.repr ++ " file(s), " ++ r.cached.length.repr
    ++ " from cache (" ++ Text.Decimal.toFixed 0 (hitRate * 100.0) ++ "% hit rate), "
    ++ r.errors.length.repr ++ " failed in " ++ r.durationMs.repr ++ "ms"

/-- What an elimination prints. -/
def eliminationLines (r : EliminationReport) : List String :=
  [r.filesProcessed.repr ++ " unit(s), " ++ r.usedExports.length.repr ++ " used export(s), "
      ++ r.unusedExports.length.repr ++ " unused"]
    ++ r.unusedExports.map ("  - " ++ ·)
    ++ r.unreachable.map ("  unreachable: " ++ ·)
    ++ ["Estimated removable: " ++ r.bytesRemovedEstimate.repr ++ " bytes"]

/-- The row of a unit. -/
def unitRow (total : Nat) (u : UnitSize) : String :=
  "  " ++ padRight 32 u.id ++ " " ++ padLeft 10 (humanSize u.size) ++ " "
    ++ padLeft 10 (humanSize u.gzipSize) ++ " " ++ share u.size total

/-- The row of a package. -/
def packageRow (total : Nat) (d : PackageUse) : String :=
  "  " ++ padRight 32 d.name ++ " " ++ padLeft 4 d.references.repr ++ " ref(s) "
    ++ padLeft 10 (humanSize d.size) ++ " " ++ share d.size total

/-- What a report on a bundle prints. -/
def bundleLines (r : BundleReport) : List String :=
  [r.fileCount.repr ++ " file(s), " ++ humanSize r.totalSize ++ " total, "
      ++ humanSize r.totalGzipSize ++ " gzipped ("
      ++ Text.Decimal.toFixed 1 r.compressionRatio ++ "x)", "Units:"]
    ++ r.units.map (unitRow r.totalSize)
    ++ if r.packages = [] then [] else "Dependencies:" :: r.packages.map (packageRow r.totalSize)

/-- The members of the numbers of a cache. -/
def cacheMembers (s : CacheStats) : List (String × Json) :=
  [("entries", Json.nat s.entries), ("tracked_files", Json.nat s.trackedFiles),
    ("graph_nodes", Json.nat s.graphNodes), ("hits", Json.nat s.hits), ("misses", Json.nat s.misses),
    ("stores", Json.nat s.stores), ("invalidations", Json.nat s.invalidations)]

/-- What is printed about a cache. -/
def cacheLines (directory : Path) (s : CacheStats) : List String :=
  ["Cache: " ++ directory.text, "  Entries: " ++ s.entries.repr,
    "  Tracked files: " ++ s.trackedFiles.repr, "  Graph nodes: " ++ s.graphNodes.repr]

/-- What watching prints about an event: lines for the output, and lines for the errors. -/
def eventLines : Event → List String × List String
  | .starting root _ => (["Watching " ++ root.text], [])
  | .compiled r =>
    (["[" ++ r.cycle.repr ++ "] " ++ r.succeeded.repr ++ " ok, " ++ r.failed.repr ++ " failed in "
        ++ r.durationMs.repr ++ "ms"], r.errors.map failure)
  | .error message => ([], ["error: " ++ message])
  | .change .. => ([], [])
  | .compiling .. => ([], [])

end CommandLine
end Rebuild
