import Rebuild.CommandLine.Invocation
import Rebuild.CommandLine.Text
import Rebuild.Project.Basic

/-!
# Running commands

A command is run in a setting that holds all it can see, and answers with what it prints, how it ends,
and the files as it leaves them.  A command that watches does not end of itself: `CommandLine.watch`
begins its session.
-/

namespace Rebuild

/-- What a command can see. -/
structure Setting where
  surroundings : Surroundings
  tree : FileTree
  /-- The working directory. -/
  here : Path
  environment : Environment
  home : Path
  /-- How many processors the machine has, if they can be counted. -/
  processors : Option Nat := none
  /-- The size of a text when it is compressed. -/
  gzipSize : String → Nat

/-- The configuration for an invocation. -/
def Setting.config (s : Setting) (i : Invocation) : Except BuildError Config :=
  ({ root := i.project.getD s.here
     environment := s.environment
     overrides := i.overrides
     user := .discover
     home := s.home
     processors := s.processors } : ConfigSources).load s.tree

/-- How a command ends. -/
structure Response where
  tree : FileTree
  output : List Printed := []
  /-- The lines about failures. -/
  complaints : List String := []
  /-- What the system is told; zero says that all went well. -/
  code : Nat := 0

namespace CommandLine

/-- The name and number of the program. -/
def version : String := "kiln 0.1.0"

/-- How the program is used. -/
def usage : List String :=
  ["Incremental builds with a content-addressed cache", "",
    "Usage: kiln [OPTIONS] <COMMAND>", "",
    "Commands:",
    "  compile <FILES>... [--force] [--dependents] [--json]",
    "  watch [--pattern <GLOB>]... [--ignore <GLOB>]...",
    "  eliminate <UNITS> [--entry <ID>]... [--json]",
    "  analyze <DIR> [--unit <ID>]... [--json]",
    "  cache clear",
    "  cache stats [--json]", "",
    "Options:",
    "  -C, --project <PROJECT>",
    "      --cache-dir <CACHE_DIR>",
    "      --workers <WORKERS>",
    "      --queue-capacity <QUEUE_CAPACITY>",
    "      --debounce-ms <DEBOUNCE_MS>",
    "  -h, --help",
    "  -V, --version"]

/-- The end of a command that failed. -/
def failed (tree : FileTree) (message : String) : Response :=
  { tree, complaints := ["Error: " ++ message], code := 1 }

/-- A command that only prints. -/
def printed (tree : FileTree) (output : List Printed) : Response := { tree, output }

/-- Compiles files. -/
def compile (s : Setting) (config : Config) (files : List Path) (options : CompileOptions)
    (json : Bool) : Response :=
  match Project.start config s.tree with
  | .error e => failed s.tree e.message
  | .ok project =>
    let (project, result) := project.compile s.surroundings options files
    let hitRate := project.cache.stats.hitRate
    let (project, saved) := project.shutdown s.surroundings
    match saved, result with
    | .error e, _ => failed project.tree e.message
    | .ok (), .error e => failed project.tree e.message
    | .ok (), .ok report =>
      let output : Printed :=
        if json then .document report.toJson else .line (compileSummary report hitRate)
      let complaints := if json then [] else report.errors.map failure
      let response : Response := { tree := project.tree, output := [output], complaints }
      if report.isSuccess then response
      else
        { response with
          complaints := complaints ++
            ["Error: " ++ report.errors.length.repr ++ " file(s) failed to compile"]
          code := 1 }

/-- Reports on symbols that are not used. -/
def eliminate (s : Setting) (config : Config) (units : Path) (entries : List String) (json : Bool) :
    Response :=
  let path := config.projectRoot.absolutize units
  match s.tree.readText path with
  | .error cause => failed s.tree ("reading " ++ path.text ++ ": " ++ cause.message)
  | .ok text =>
    match (Json.parse? text).bind (Json.list? CompileUnit.ofJson?) with
    | none => failed s.tree ("parsing compile units in " ++ path.text)
    | some units =>
      let report := ({ units, entryPoints := entries } : Program).eliminate
      if json then printed s.tree [.document report.toJson]
      else
        { tree := s.tree
          output := (eliminationLines report).map .line
          complaints := report.unresolvedImports.map ("  unresolved import: " ++ ·) }

/-- Reports on the sizes of files. -/
def analyze (s : Setting) (config : Config) (directory : Path) (units : List String) (json : Bool) :
    Response :=
  match Artifact.load s.tree (config.projectRoot.absolutize directory) with
  | .error e => failed s.tree e.message
  | .ok artifacts =>
    let known := if units = [] then none else some units
    let report := BundleReport.ofArtifacts s.gzipSize known artifacts
    printed s.tree (if json then [.document report.toJson] else (bundleLines report).map .line)

/-- Empties the cache. -/
def clearCache (s : Setting) (config : Config) : Response :=
  match (Cache.load s.tree config.cacheDir).clear s.tree with
  | (_, tree, .error e) => failed tree e.message
  | (_, tree, .ok ()) => printed tree [.line "✓ Cache cleared"]

/-- Prints the numbers of the cache. -/
def cacheStats (s : Setting) (config : Config) (json : Bool) : Response :=
  let stats := (Cache.load s.tree config.cacheDir).stats
  printed s.tree <|
    if json then [.document (.object (cacheMembers stats))]
    else (cacheLines config.cacheDir stats).map .line

/-- Begins to watch a project, whose root has to be there. -/
def watch (s : Setting) (config : Config) (patterns ignored : List String) :
    Except BuildError (Timeline Project) := do
  let project ← Project.start config s.tree
  let session ← project.watch s.surroundings patterns ignored
  match s.tree.find? config.projectRoot with
  | .ok _ => return session
  | .error _ => .error (.watcher ("failed to watch " ++ config.projectRoot.text))

/-- The end of a session that is interrupted: no pass begins any more, and the stores are saved. -/
def interrupt (s : Setting) (session : Timeline Project) : Response :=
  match (Project.ofTimeline session.stop).shutdown s.surroundings with
  | (project, .ok ()) => printed project.tree []
  | (project, .error e) => failed project.tree e.message

/-- A command that is under way. -/
inductive Running where
  /-- It has ended. -/
  | ended (response : Response)
  /-- It watches. -/
  | watching (session : Timeline Project)

/-- Runs the command of an invocation. -/
def perform (s : Setting) (i : Invocation) : Running :=
  match s.config i with
  | .error e => .ended (failed s.tree e.message)
  | .ok config =>
    match i.command with
    | .compile files force withDependents json =>
      .ended (compile s config files { force, withDependents } json)
    | .eliminate units entries json => .ended (eliminate s config units entries json)
    | .analyze directory units json => .ended (analyze s config directory units json)
    | .clearCache => .ended (clearCache s config)
    | .cacheStats json => .ended (cacheStats s config json)
    | .watch patterns ignored =>
      match watch s config patterns ignored with
      | .ok session => .watching session
      | .error e => .ended (failed s.tree e.message)

/-- Runs the command that the arguments ask for. -/
def run (s : Setting) (arguments : List String) : Running :=
  match Invocation.ofArguments arguments with
  | .ok invocation => perform s invocation
  | .error .help => .ended (printed s.tree (usage.map .line))
  | .error .version => .ended (printed s.tree [.line version])
  | .error .misuse => .ended { tree := s.tree, complaints := usage, code := 2 }

end CommandLine
end Rebuild
