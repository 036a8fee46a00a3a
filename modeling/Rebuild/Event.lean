import Rebuild.Json.Printer
import Rebuild.Path.Json

/-!
# Events of a build

What a build tells those who listen: changes that were seen, passes that begin and end, and
failures of the machinery.  Each event is a JSON object whose member `type` names it.
-/

namespace Rebuild

/-- What happened to a file. -/
inductive ChangeKind where
  | add
  | change
  | remove
  deriving DecidableEq, Repr, Inhabited

namespace ChangeKind

/-- The word for a kind of change. -/
def word : ChangeKind → String
  | add => "add"
  | change => "change"
  | remove => "remove"

/-- The kind of change that a word names. -/
def ofWord? : String → Option ChangeKind
  | "add" => some add
  | "change" => some change
  | "remove" => some remove
  | _ => none

end ChangeKind

/-- A file that failed in a pass, and why. -/
structure FileError where
  path : Path
  message : String
  deriving DecidableEq, Repr, Inhabited

/-- The end of a pass. -/
structure PassReport where
  cycle : Nat
  files : List Path
  succeeded : Nat
  failed : Nat
  durationMs : Nat
  errors : List FileError
  deriving DecidableEq, Repr

/-- Something that a build tells. -/
inductive Event where
  /-- Watching begins. -/
  | starting (root : Path) (patterns : List String)
  /-- A change was seen. -/
  | change (kind : ChangeKind) (path : Path)
  /-- A pass over these files begins. -/
  | compiling (cycle : Nat) (files : List Path)
  /-- A pass ended. -/
  | compiled (report : PassReport)
  /-- The machinery failed; watching goes on where it can. -/
  | error (message : String)
  deriving DecidableEq, Repr

namespace FileError

/-- A failed file as JSON. -/
def toJson (e : FileError) : Json :=
  .object [("path", e.path.toJson), ("message", .string e.message)]

/-- The failed file in a JSON value. -/
def ofJson? (value : Json) : Option FileError := do
  let r ← Json.record? ["path", "message"] value
  return {
    path := ← Json.Record.required? r "path" Path.ofJson?
    message := ← Json.Record.required? r "message" Json.string? }

end FileError

namespace Event

/-- The word for an event. -/
def name : Event → String
  | starting .. => "starting"
  | change .. => "change"
  | compiling .. => "compiling"
  | compiled .. => "compiled"
  | error .. => "error"

/-- The members of an event beside its name. -/
def members : Event → List (String × Json)
  | starting root patterns => [("root", root.toJson), ("patterns", Json.strings patterns)]
  | change kind path => [("kind", .string kind.word), ("path", path.toJson)]
  | compiling cycle files => [("cycle", Json.nat cycle), ("files", Path.listToJson files)]
  | compiled report =>
    [("cycle", Json.nat report.cycle), ("files", Path.listToJson report.files),
      ("succeeded", Json.nat report.succeeded), ("failed", Json.nat report.failed),
      ("duration_ms", Json.nat report.durationMs),
      ("errors", .array (report.errors.map FileError.toJson))]
  | error message => [("message", .string message)]

/-- An event as JSON. -/
def toJson (e : Event) : Json := .object (("type", .string e.name) :: e.members)

/-- The name of an event in a JSON value, and what says the rest: the same object, or a list after its
first item. -/
def tagged? : Json → Option (String × Json)
  | .array (.string kind :: rest) => some (kind, .array rest)
  | .array _ => none
  | value => do
    let r ← Json.record? ["type"] value
    return (← Json.Record.required? r "type" Json.string?, value)

/-- The event in a JSON value. -/
def ofJson? (value : Json) : Option Event := do
  let (kind, value) ← tagged? value
  let paths := Json.list? Path.ofJson?
  match kind with
  | "starting" =>
    let r ← Json.record? ["root", "patterns"] value
    return starting (← Json.Record.required? r "root" Path.ofJson?)
      (← Json.Record.required? r "patterns" (Json.list? Json.string?))
  | "change" =>
    let r ← Json.record? ["kind", "path"] value
    let word ← Json.Record.required? r "kind" Json.string?
    return change (← ChangeKind.ofWord? word) (← Json.Record.required? r "path" Path.ofJson?)
  | "compiling" =>
    let r ← Json.record? ["cycle", "files"] value
    return compiling (← Json.Record.required? r "cycle" Json.word64?)
      (← Json.Record.required? r "files" paths)
  | "compiled" =>
    let r ← Json.record?
      ["cycle", "files", "succeeded", "failed", "duration_ms", "errors"] value
    return compiled {
      cycle := ← Json.Record.required? r "cycle" Json.word64?
      files := ← Json.Record.required? r "files" paths
      succeeded := ← Json.Record.required? r "succeeded" Json.word64?
      failed := ← Json.Record.required? r "failed" Json.word64?
      durationMs := ← Json.Record.required? r "duration_ms" Json.word64?
      errors := ← Json.Record.required? r "errors" (Json.list? FileError.ofJson?) }
  | "error" =>
    let r ← Json.record? ["message"] value
    return error (← Json.Record.required? r "message" Json.string?)
  | _ => none

end Event
end Rebuild
