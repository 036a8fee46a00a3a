import Rebuild.Json.Printer
import Rebuild.Path.Json

/-!
# Tasks of workers

What a worker is given, what a compiler says about it, and what the worker reports.  A compiler is a
function: it sees its task and nothing else.  Tasks and reports are JSON objects on the wire.
-/

namespace Rebuild

/-- A file to compile. -/
structure Task where
  id : String
  path : Path
  content : String
  /-- Files that the task's owner says the file needs. -/
  dependencies : Option (List Path) := none
  deriving DecidableEq, Repr

/-- What comes of compiling a file. -/
inductive Verdict where
  /-- The output, and the files that it needs. -/
  | compiled (output : String) (dependencies : List Path)
  /-- The file is wrong. -/
  | refused (message : String)
  /-- The compiler broke down, and its worker with it. -/
  | crashed (message : Option String)
  deriving DecidableEq, Repr

/-- A compiler, by what it says about each task. -/
abbrev Compiler := Task → Verdict

/-- What a worker reports about a task that it has done. -/
structure TaskReport where
  taskId : String
  success : Bool
  output : Option String := none
  error : Option String := none
  dependencies : Option (List Path) := none
  durationMs : Nat := 0
  deriving DecidableEq, Repr

namespace Task

/-- A task as JSON. -/
def toJson (t : Task) : Json :=
  .object <|
    [("id", .string t.id), ("filePath", t.path.toJson), ("content", .string t.content)] ++
    Json.optionalMember "dependencies" (t.dependencies.map Path.listToJson)

/-- The task in a JSON value. -/
def ofJson? (value : Json) : Option Task := do
  let r ← Json.recordWith? 1 ["id", "filePath", "content", "dependencies"] value
  return {
    id := ← Json.Record.required? r "id" Json.string?
    path := ← Json.Record.required? r "filePath" Path.ofJson?
    content := ← Json.Record.required? r "content" Json.string?
    dependencies := ← Json.Record.optional? r "dependencies" (Json.list? Path.ofJson?) }

end Task

namespace TaskReport

/-- The report about a task that compiled. -/
def ofCompiled (taskId output : String) (dependencies : List Path) : TaskReport :=
  { taskId, success := true, output := some output, dependencies := some dependencies }

/-- The report about a task that is wrong. -/
def ofRefused (taskId message : String) : TaskReport :=
  { taskId, success := false, error := some message }

/-- A report as JSON. -/
def toJson (r : TaskReport) : Json :=
  .object <|
    [("taskId", .string r.taskId), ("success", .bool r.success)] ++
    Json.optionalMember "output" (r.output.map .string) ++
    Json.optionalMember "error" (r.error.map .string) ++
    Json.optionalMember "dependencies" (r.dependencies.map Path.listToJson) ++
    [("durationMs", Json.nat r.durationMs)]

/-- The report in a JSON value. -/
def ofJson? (value : Json) : Option TaskReport := do
  let r ← Json.record?
    ["taskId", "success", "output", "error", "dependencies", "durationMs"] value
  return {
    taskId := ← Json.Record.required? r "taskId" Json.string?
    success := ← Json.Record.required? r "success" Json.bool?
    output := ← Json.Record.optional? r "output" Json.string?
    error := ← Json.Record.optional? r "error" Json.string?
    dependencies := ← Json.Record.optional? r "dependencies" (Json.list? Path.ofJson?)
    durationMs := ← Json.Record.required? r "durationMs" Json.word64? }

end TaskReport
end Rebuild
