import Rebuild.CommandLine.Arguments
import Rebuild.Config.Layer

/-!
# Commands

What can be asked for on the command line.  The settings of the project can be given at every level;
where one is given twice, the deeper level counts.
-/

namespace Rebuild

/-- Something to do. -/
inductive Command where
  /-- Compile files. -/
  | compile (files : List Path) (force withDependents json : Bool)
  /-- Compile what changes, until interrupted. -/
  | watch (patterns ignored : List String)
  /-- Report on symbols that are not used, of the units in a file. -/
  | eliminate (units : Path) (entries : List String) (json : Bool)
  /-- Report on the sizes of files in a directory. -/
  | analyze (directory : Path) (units : List String) (json : Bool)
  | clearCache
  | cacheStats (json : Bool)
  deriving DecidableEq, Repr

/-- A command line. -/
structure Invocation where
  /-- The root of the project, if it is not the working directory. -/
  project : Option Path
  overrides : Overrides
  command : Command
  deriving DecidableEq, Repr

namespace Invocation

open Arguments

/-! ## What can be written -/

/-- A text that names a path. -/
def isPath (text : String) : Bool := text ≠ ""

/-- The number of 64 bits that a text writes, maybe after a plus. -/
def natural? (text : String) : Option Nat :=
  if text.toList.any Text.isBlank then none else Environment.natural? text

/-- A text that writes a number. -/
def isNatural (text : String) : Bool := (natural? text).isSome

/-- The settings of a project. -/
def settings : List Rule :=
  [{ name := "project", short := some 'C', takes := .one isPath },
    { name := "cache-dir", takes := .one isPath },
    { name := "workers", takes := .one isNatural },
    { name := "queue-capacity", takes := .one isNatural },
    { name := "debounce-ms", takes := .one isNatural }]

/-- An option without a value. -/
def switch (name : String) : Rule := { name, takes := .nothing }

/-- An option that can be given many times. -/
def collected (name : String) : Rule := { name, takes := .many }

/-- The level of a command. -/
def level : List String → Level
  | [] =>
    { rules := settings, commands := ["compile", "watch", "eliminate", "analyze", "cache"]
      hasVersion := true }
  | ["compile"] =>
    { rules := settings ++ [switch "force", switch "dependents", switch "json"], words := none }
  | ["watch"] => { rules := settings ++ [collected "pattern", collected "ignore"] }
  | ["eliminate"] => { rules := settings ++ [collected "entry", switch "json"], words := some 1 }
  | ["analyze"] => { rules := settings ++ [collected "unit", switch "json"], words := some 1 }
  | ["cache"] => { rules := settings, commands := ["clear", "stats"] }
  | ["cache", "stats"] => { rules := settings ++ [switch "json"] }
  | _ => { rules := settings }

/-- What a request to explain the command of these names comes to: there has to be such a command. -/
def explain : List String → List String → Stop
  | _, [] => .help
  | path, name :: rest =>
    if name ∈ (level path).commands then explain (path ++ [name]) rest
    else if (level path).isCommand name && rest.isEmpty then .help
    else .misuse

/-- What is written at each level from `path` on, which goes so many levels deep at most. -/
def readLevels : Nat → List String → List String → Except Stop (List (String × Given))
  | 0, _, _ => .error .misuse
  | depth + 1, path, arguments => do
    let given ← (level path).read arguments
    let name := (path.getLast?).getD ""
    match given.command with
    | none =>
      if (level path).commands.isEmpty then return [(name, given)] else .error .misuse
    | some (command, rest) =>
      if command = Level.helpCommand then .error (explain path rest)
      else return (name, given) :: (← readLevels depth (path ++ [command]) rest)

/-! ## Meaning -/

/-- The paths of plain words. -/
def paths? (words : List String) : Except Stop (List Path) :=
  if words ≠ [] ∧ words.all isPath then .ok (words.map Path.mk) else .error .misuse

/-- The command of these names, with what is given at the deepest level. -/
def commandOf (names : List String) (g : Given) : Except Stop Command :=
  match names with
  | ["compile"] => do
    return .compile (← paths? g.words) (g.has "force") (g.has "dependents") (g.has "json")
  | ["watch"] => .ok (.watch (g.values "pattern") (g.values "ignore"))
  | ["eliminate"] => do
    return .eliminate ((← paths? g.words).headD ⟨""⟩) (g.values "entry") (g.has "json")
  | ["analyze"] => do
    return .analyze ((← paths? g.words).headD ⟨""⟩) (g.values "unit") (g.has "json")
  | ["cache", "clear"] => .ok .clearCache
  | ["cache", "stats"] => .ok (.cacheStats (g.has "json"))
  | _ => .error .misuse

/-- What the arguments ask for. -/
def ofArguments (arguments : List String) : Except Stop Invocation := do
  let levels ← readLevels 3 [] arguments
  let setting (name : String) : Option String :=
    levels.reverse.findSome? fun (_, given) => given.value? name
  let deepest := (levels.getLast?.map Prod.snd).getD {}
  let command ← commandOf (levels.map Prod.fst).tail deepest
  return {
    project := (setting "project").map Path.mk
    overrides := {
      cacheDir := (setting "cache-dir").map Path.mk
      workers := (setting "workers").bind natural?
      queueCapacity := (setting "queue-capacity").bind natural?
      debounceMs := (setting "debounce-ms").bind natural? }
    command }

end Invocation
end Rebuild
