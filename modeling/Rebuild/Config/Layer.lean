import Rebuild.Config.Basic
import Rebuild.Json.Reader
import Rebuild.Toml.Basic

/-!
# Layers of configuration

A layer gives some of the settings.  Laid over a configuration it replaces what it gives, except that
the ignored patterns of all layers add up.

There are three kinds of layers: files, the environment, and the command line.  A file takes part as
soon as it is there; the others take part when they give something.
-/

namespace Rebuild

/-- The settings that one source gives. -/
structure Layer where
  cacheDir : Option Path := none
  workers : Option Nat := none
  queueCapacity : Option Nat := none
  debounceMs : Option Nat := none
  concurrency : Option Nat := none
  patterns : Option (List String) := none
  ignored : List String := []
  /-- What the configuration comes from if the layer takes part. -/
  source : Option ConfigSource := none
  deriving DecidableEq, Repr

namespace Layer

/-- A configuration with a layer over it.  A relative directory is seen from the root. -/
def applyTo (l : Layer) (c : Config) : Config where
  projectRoot := c.projectRoot
  cacheDir := (l.cacheDir.map c.projectRoot.join).getD c.cacheDir
  workers := l.workers.getD c.workers
  queueCapacity := l.queueCapacity.getD c.queueCapacity
  debounceMs := l.debounceMs.getD c.debounceMs
  concurrency := l.concurrency.getD c.concurrency
  patterns := l.patterns.getD c.patterns
  ignored := c.ignored ++ l.ignored
  source := l.source.getD c.source

/-- A configuration with layers over it, the lowest first. -/
def stack (layers : List Layer) (c : Config) : Config :=
  layers.foldl (fun c l => l.applyTo c) c

end Layer

/-! ## Files -/

namespace Toml

/-- A string. -/
def string? : Toml → Option String
  | string text => some text
  | _ => none

/-- A natural number. -/
def nat? : Toml → Option Nat
  | integer (.ofNat n) => some n
  | _ => none

/-- A list of strings. -/
def strings? : Toml → Option (List String)
  | array items => items.mapM string?
  | _ => none

/-- The members of a table that has no others than these; a list gives their values in order, and may
go on. -/
def fields? (names : List String) : Toml → Option Members
  | table _ members => if members.all (·.1 ∈ names) then some members else none
  | array items => if names.length ≤ items.length then some (names.zip items) else none
  | _ => none

/-- The setting of this name, if there is one, which has to be readable. -/
def setting? {α : Type} (read : Toml → Option α) (members : Members) (name : String) :
    Option (Option α) :=
  match members.lookup name with
  | none => some none
  | some value => (read value).map some

end Toml

namespace Layer

/-- The layer of a file with these members; `none` for unknown members and values of a wrong kind. -/
def ofToml? (path : Path) (members : Toml.Members) : Option Layer := do
  let members ← Toml.fields?
    ["cache_dir", "workers", "queue_capacity", "debounce_ms", "watch", "compile"]
    (.table false members)
  let watch ← Toml.setting? (Toml.fields? ["patterns", "ignored"]) members "watch"
  let compile ← Toml.setting? (Toml.fields? ["concurrency"]) members "compile"
  let ignored ← Toml.setting? Toml.strings? (watch.getD []) "ignored"
  return {
    cacheDir := (← Toml.setting? Toml.string? members "cache_dir").map Path.mk
    workers := ← Toml.setting? Toml.nat? members "workers"
    queueCapacity := ← Toml.setting? Toml.nat? members "queue_capacity"
    debounceMs := ← Toml.setting? Toml.nat? members "debounce_ms"
    concurrency := ← Toml.setting? Toml.nat? (compile.getD []) "concurrency"
    patterns := ← Toml.setting? Toml.strings? (watch.getD []) "patterns"
    ignored := ignored.getD []
    source := some (.file path) }

end Layer

/-! ## The environment -/

/-- Variables by name. -/
abbrev Environment := List (String × String)

namespace Environment

/-- The natural number of 64 bits that a text writes, between blanks and maybe after a plus. -/
def natural? (text : String) : Option Nat :=
  let digits := match Text.trim text.toList with
    | '+' :: cs => cs
    | cs => cs
  match Json.takeDigits digits with
  | ([], _) => none
  | (ds, []) => if Json.digitsValue ds < UInt64.size then some (Json.digitsValue ds) else none
  | _ => none

/-- The number in a variable, if it is set. -/
def number (env : Environment) (name : String) : Except Misconfiguration (Option Nat) :=
  match env.lookup name with
  | none => .ok none
  | some value =>
    match natural? value with
    | some n => .ok (some n)
    | none => .error (.notANumber name value)

/-- The layer of the variables. -/
def layer (env : Environment) : Except Misconfiguration Layer := do
  let workers ← env.number "KILN_WORKERS"
  let queueCapacity ← env.number "KILN_QUEUE_CAPACITY"
  let debounceMs ← env.number "KILN_DEBOUNCE_MS"
  let order := ["KILN_DEBOUNCE_MS", "KILN_QUEUE_CAPACITY", "KILN_WORKERS", "KILN_CACHE_DIR"]
  return {
    cacheDir := (env.lookup "KILN_CACHE_DIR").map Path.mk
    workers
    queueCapacity
    debounceMs
    source := (order.find? fun name => (env.lookup name).isSome).map .environment }

end Environment

/-! ## The command line -/

/-- The settings of the command line; an empty list of patterns says nothing. -/
structure Overrides where
  cacheDir : Option Path := none
  workers : Option Nat := none
  queueCapacity : Option Nat := none
  debounceMs : Option Nat := none
  patterns : List String := []
  ignored : List String := []
  deriving DecidableEq, Repr

namespace Overrides

/-- The command line gives a setting. -/
def isGiven (o : Overrides) : Bool :=
  o.cacheDir.isSome || o.workers.isSome || o.queueCapacity.isSome || o.debounceMs.isSome
    || !o.patterns.isEmpty || !o.ignored.isEmpty

/-- The layer of the command line. -/
def layer (o : Overrides) : Layer where
  cacheDir := o.cacheDir
  workers := o.workers
  queueCapacity := o.queueCapacity
  debounceMs := o.debounceMs
  patterns := if o.patterns = [] then none else some o.patterns
  ignored := o.ignored
  source := if o.isGiven then some .commandLine else none

end Overrides
end Rebuild
