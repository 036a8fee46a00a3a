import Rebuild.Event
import Rebuild.Path.Map
import Rebuild.Watch.Session

/-!
# Reports of passes

What a pass made of its files: compiled, taken from the cache, or failed, each file once, and the output
of every file that did not fail.
-/

namespace Rebuild

/-- The result of a pass. -/
structure CompileReport where
  /-- The files that were compiled. -/
  compiled : List Path := []
  /-- The files whose outputs the cache had. -/
  cached : List Path := []
  /-- The files that failed. -/
  errors : List FileError := []
  /-- The outputs of the files that did not fail. -/
  outputs : PathMap String := ∅
  durationMs : Nat := 0

namespace CompileReport

/-- No file failed. -/
def isSuccess (r : CompileReport) : Bool := r.errors.isEmpty

/-- The files that did not fail. -/
def succeeded (r : CompileReport) : List Path := r.compiled ++ r.cached

/-- The number of files. -/
def total (r : CompileReport) : Nat := r.compiled.length + r.cached.length + r.errors.length

/-- The report with a file that was compiled. -/
def addCompiled (r : CompileReport) (p : Path) (output : String) : CompileReport :=
  { r with compiled := r.compiled ++ [p], outputs := r.outputs.put p output }

/-- The report with a file whose output the cache had. -/
def addCached (r : CompileReport) (p : Path) (output : String) : CompileReport :=
  { r with cached := r.cached ++ [p], outputs := r.outputs.put p output }

/-- The report with a file that failed. -/
def addError (r : CompileReport) (p : Path) (message : String) : CompileReport :=
  { r with errors := r.errors ++ [⟨p, message⟩] }

/-- What a watch session learns of a pass. -/
def outcome (r : CompileReport) : CompileOutcome := ⟨r.succeeded, r.errors⟩

/-- What is told at the end of a pass over these files. -/
def told (r : CompileReport) (cycle : Nat) (files : List Path) : Event :=
  .compiled {
    cycle
    files
    succeeded := r.compiled.length + r.cached.length
    failed := r.errors.length
    durationMs := r.durationMs
    errors := r.errors }

/-- A report as JSON, without the outputs. -/
def toJson (r : CompileReport) : Json :=
  .object [("compiled", Path.listToJson r.compiled), ("cached", Path.listToJson r.cached),
    ("errors", .array (r.errors.map FileError.toJson)), ("durationMs", Json.nat r.durationMs)]

end CompileReport
end Rebuild
