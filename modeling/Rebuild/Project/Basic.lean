import Rebuild.Bundle.Report
import Rebuild.Compilation.Basic
import Rebuild.Config.Load
import Rebuild.Watch.Timeline

/-!
# Projects

A project under work: its configuration, the cache, the pool and the files.  `Project.compile` and
`Project.watchInputs` build, `Project.shutdown` ends the work, and all that is told meanwhile is in
`Project.events`.
-/

namespace Rebuild

/-- A project under work. -/
structure Project where
  config : Config
  tree : FileTree
  workshop : Workshop
  /-- The number of the last pass that was asked for. -/
  cycle : Nat := 0
  /-- What was told, the latest first. -/
  events : List Event := []

namespace Project

/-- The project with a cache that is read from its stores, and a new pool. -/
def start (config : Config) (tree : FileTree) : Except BuildError Project := do
  let pool ← Pool.start config.workers config.queueCapacity
  return {
    config
    tree
    workshop := {
      cache := Cache.load tree config.cacheDir
      pool
      concurrency := max config.concurrency 1 } }

/-- The cache of the project. -/
def cache (p : Project) : Cache := p.workshop.cache

/-- The project with another cache. -/
def withCache (p : Project) (cache : Cache) : Project :=
  { p with workshop := { p.workshop with cache } }

/-- The project with an event told. -/
def tell (p : Project) (e : Event) : Project := { p with events := e :: p.events }

/-- The files that a pass is about: relative paths are seen from the root of the project. -/
def inputs (p : Project) (options : CompileOptions) (files : List Path) : List Path :=
  let files := files.map p.config.projectRoot.absolutize
  if options.withDependents then p.cache.affected files else files

/-- The project after a pass, and its report. -/
def compile (s : Surroundings) (p : Project) (options : CompileOptions) (files : List Path) :
    Project × Except BuildError CompileReport :=
  let files := p.inputs options files
  let cycle := p.cycle + 1
  let begun := { p with cycle }.tell (.compiling cycle files)
  let (tree, workshop, result) := Compilation.runAndSave s options p.tree p.workshop files
  let done := { begun with tree, workshop }
  match result with
  | .ok report => (done.tell (report.told cycle files), .ok report)
  | .error e => (done.tell (.error e.message), .error e)

/-! ## Watching -/

/-- How the project is watched: without patterns, by the configured ones; the configured files are
ignored in any case. -/
def watchOptions (p : Project) (patterns ignored : List String) : WatchOptions where
  root := p.config.projectRoot
  patterns := if patterns = [] then p.config.patterns else patterns
  ignored := ignored.foldl Config.withItem p.config.ignored
  debounce := p.config.debounceMs

/-- A pass over what changed, which takes the cache as the session has left it. -/
def runPass (s : Surroundings) (p : Project) (cache : Option Cache) (files : List Path) :
    Project × Option Cache × Except BuildError CompileOutcome :=
  let workshop := { p.workshop with cache := cache.getD p.cache }
  let (tree, workshop, result) := Compilation.runAndSave s {} p.tree workshop files
  ({ p with tree, workshop }, cache.map fun _ => workshop.cache, result.map CompileReport.outcome)

/-- A watch session over the project, before anything is due; a wait is never shorter than a
millisecond. -/
def watch (s : Surroundings) (p : Project) (patterns ignored : List String) :
    Except BuildError (Timeline Project) := do
  let options := p.watchOptions patterns ignored
  let session ← Session.start { options with debounce := max options.debounce 1 } (some p.cache)
  return { runner := ⟨0, runPass s⟩, state := p, session }

/-- The project with what a session made of it. -/
def ofTimeline (t : Timeline Project) : Project :=
  let p := t.state.withCache (t.session.cache.getD t.state.cache)
  { p with events := t.session.events ++ p.events }

/-- The project after a session over inputs that all come at once and are all there are. -/
def watchInputs (s : Surroundings) (p : Project) (patterns ignored : List String)
    (inputs : List WatchInput) : Except BuildError Project :=
  (p.watch s patterns ignored).map fun t =>
    ofTimeline { t with inbox := inputs, closed := true }.settle

/-! ## Results -/

/-- The outputs of a pass as parts of a bundle. -/
def artifacts (r : CompileReport) : List Artifact :=
  r.outputs.toList.map fun (p, output) => ⟨p, output⟩

/-- The project with its stores saved and its pool at an end; the pool goes on if saving fails. -/
def shutdown (s : Surroundings) (p : Project) : Project × Except BuildError Unit :=
  match p.cache.save s.faults s.fresh s.now p.tree with
  | (tree, .error e) => ({ p with tree }, .error e)
  | (tree, .ok ()) =>
    ({ p with tree, workshop := { p.workshop with pool := p.workshop.pool.beginShutdown.retire } },
      .ok ())

end Project
end Rebuild
