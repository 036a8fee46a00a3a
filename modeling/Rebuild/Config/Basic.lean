import Rebuild.Error

/-!
# Configuration

`Config` is what a project is built and watched with.  `Config.check` says which configurations are in
order, and `Config.ignoringCache` keeps the cache out of what is watched.
-/

namespace Rebuild

/-- Where the highest setting of a configuration comes from. -/
inductive ConfigSource where
  | default
  | file (path : Path)
  | environment (name : String)
  | commandLine
  deriving DecidableEq, Repr

/-- A complete configuration. -/
structure Config where
  projectRoot : Path
  /-- The directory of the cache's stores. -/
  cacheDir : Path
  workers : Nat
  /-- How many tasks may wait. -/
  queueCapacity : Nat
  /-- How long no change may come before a pass starts, in milliseconds. -/
  debounceMs : Nat
  /-- How many tasks of a pass may be under way. -/
  concurrency : Nat
  /-- What is watched. -/
  patterns : List String
  /-- What is not watched. -/
  ignored : List String
  source : ConfigSource
  deriving DecidableEq, Repr

namespace Config

/-- The workers where nobody says how many: one for each processor but that of the coordinating
thread, and at least one.  Processors that cannot be counted are taken for two. -/
def defaultWorkers (processors : Option Nat) : Nat := max ((processors.map (· - 1)).getD 1) 1

/-- The configuration of a project that says nothing, on a machine with these processors. -/
def defaults (root : Path) (processors : Option Nat) : Config where
  projectRoot := root
  cacheDir := root.join ⟨".kiln/cache"⟩
  workers := defaultWorkers processors
  queueCapacity := 1000
  debounceMs := 300
  concurrency := defaultWorkers processors * 2
  patterns := ["**/*"]
  ignored := ["**/.git/**", "**/target/**", "**/node_modules/**", "**/.kiln/**"]
  source := .default

/-- What is wrong with a configuration, of several faults the first. -/
def check (c : Config) : Except Misconfiguration Unit :=
  if c.workers = 0 then .error .noWorkers
  else if c.queueCapacity = 0 then .error .noQueueCapacity
  else if c.concurrency = 0 then .error .noConcurrency
  else if c.patterns = [] then .error .noPatterns
  else .ok ()

/-! ## The cache is not watched -/

/-- The pattern that matches a text and nothing else, as far as brackets can tell. -/
def literalPattern (text : String) : String :=
  String.ofList <| text.toList.flatMap fun c =>
    if c ∈ ['?', '*', '[', ']', '\x7b', '\x7d'] then ['[', c, ']'] else [c]

/-- The text of a component in a pattern. -/
def componentPattern : Component → String
  | .root => "/"
  | c => literalPattern c.text

/-- The pattern of all that is in the directory of the cache, if that is below the root. -/
def cachePattern? (c : Config) : Option String :=
  match (c.projectRoot.relativeTo? c.cacheDir).map Path.components with
  | none => none
  | some [] => none
  | some steps => some ("/".intercalate (steps.map componentPattern) ++ "/**")

/-- The list with an item at its end, unless it is in it. -/
def withItem (items : List String) (item : String) : List String :=
  if item ∈ items then items else items ++ [item]

/-- The configuration with its cache ignored. -/
def ignoringCache (c : Config) : Config :=
  match c.cachePattern? with
  | none => c
  | some pattern => { c with ignored := withItem c.ignored pattern }

end Config
end Rebuild
