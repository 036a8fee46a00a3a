import Rebuild.Compilation.Freshness
import Rebuild.Compilation.Report
import Rebuild.Pool.Flight

/-!
# Passes

A pass takes what it can from the cache and has the pool compile the rest.  It looks at the files many
times: it looks up each file, reads each one that it is to compile, and stores each result.  The files
may be changed by anyone between two looks, so a pass is given the tree of each look (`Sight`).

Only the pass itself changes the cache; workers see nothing but their tasks.
-/

namespace Rebuild

/-- A look of a pass at the files. -/
inductive Look where
  /-- Asking the cache about a file. -/
  | lookup (p : Path)
  /-- Reading a file that is to be compiled. -/
  | read (p : Path)
  /-- Storing the output of a file. -/
  | store (p : Path)
  deriving DecidableEq, Repr

/-- The tree at each look. -/
abbrev Sight := Look → FileTree

/-- What a pass depends on beside the files. -/
structure Surroundings where
  compiler : Compiler
  now : Timestamp
  /-- The id of new tasks, and what makes the names of temporary files unlike any other. -/
  fresh : String
  faults : Faults := Faults.none

/-- What a pass is asked for. -/
structure CompileOptions where
  /-- Take nothing from the cache. -/
  force : Bool := false
  /-- Compile what depends on the files too. -/
  withDependents : Bool := false
  /-- How many tasks may be under way, if not as many as configured. -/
  concurrency : Option Nat := none
  deriving DecidableEq, Repr

/-- What passes share. -/
structure Workshop where
  cache : Cache
  pool : Pool
  /-- How many tasks may be under way. -/
  concurrency : Nat

namespace Compilation

/-- The normal forms of the paths, each once. -/
def inputs (files : List Path) : List Path :=
  Reach.fresh [] (files.map Path.normalize)

/-- The cache and the division after a file. -/
def lookup (sight : Sight) (force : Bool) (state : Cache × Division) (file : Path) :
    Cache × Division :=
  let (cache, d) := state
  if force then (cache, { d with misses := d.misses ++ [file] })
  else
    match cache.fresh (sight (.lookup file)) file with
    | (asked, some entry) => (asked, { d with hits := d.hits ++ [(file, entry)] })
    | (asked, none) => (asked, { d with misses := d.misses ++ [file] })

/-- The files divided. -/
def divide (sight : Sight) (force : Bool) (cache : Cache) (files : List Path) : Cache × Division :=
  let (asked, d) := (inputs files).foldl (lookup sight force) (cache, {})
  (asked, d.demote asked.graph)

/-- The report and the tasks after reading a file that is to be compiled. -/
def read (sight : Sight) (fresh : String) (state : CompileReport × List Task) (file : Path) :
    CompileReport × List Task :=
  let (report, tasks) := state
  match (sight (.read file)).readText file with
  | .ok content => (report, tasks ++ [{ id := fresh, path := file, content }])
  | .error cause => (report.addError file ("read failed: " ++ cause.message), tasks)

/-- The cache and the report after the outcome of a task; the pass fails with an error that does not
concern the task alone. -/
def record (sight : Sight) (now : Timestamp) (state : Cache × CompileReport) (file : Path) :
    Outcome → Except BuildError (Cache × CompileReport)
  | .error e =>
    if e.isPerTask then .ok (state.1, state.2.addError file e.message) else .error e
  | .ok result =>
    let (cache, report) := state
    if !result.success then
      .ok (cache, report.addError file (result.error.getD "compile failed"))
    else
      let output := result.output.getD ""
      let metadata := Json.object [("durationMs", Json.nat result.durationMs)]
      match cache.store (sight (.store file)) now file output (result.dependencies.getD [])
          (some metadata) with
      | .ok stored => .ok (stored, report.addCompiled file output)
      | .error e =>
        let failure := BuildError.compile file ("could not record output: " ++ e.message)
        .ok (cache, report.addError file failure.message)

/-- The cache after the outcomes of the tasks up to the first with which the pass fails, and the
report. -/
def recordAll (sight : Sight) (now : Timestamp) (state : Cache × CompileReport) :
    List (Path × Outcome) → Cache × Except BuildError CompileReport
  | [] => (state.1, .ok state.2)
  | (file, outcome) :: rest =>
    match record sight now state file outcome with
    | .ok next => recordAll sight now next rest
    | .error e => (state.1, .error e)

/-- The workshop after a pass, and its report; nothing is saved yet. -/
def run (s : Surroundings) (sight : Sight) (options : CompileOptions) (w : Workshop)
    (files : List Path) : Workshop × Except BuildError CompileReport :=
  let (cache, d) := divide sight options.force w.cache files
  let served := d.hits.foldl (fun r (p, entry) => r.addCached p entry.output) {}
  let (report, tasks) := d.misses.foldl (read sight s.fresh) (served, [])
  let limit := options.concurrency.getD w.concurrency
  let (pool, outcomes) := w.pool.executeWithLimit (fun t => some (s.compiler t)) limit tasks
  let (cache, result) := recordAll sight s.now (cache, report) ((tasks.map Task.path).zip outcomes)
  ({ w with cache, pool }, result)

/-- The tree, the workshop and the report after a pass over files that nobody else changes.  The stores
are saved if anything was compiled. -/
def runAndSave (s : Surroundings) (options : CompileOptions) (tree : FileTree) (w : Workshop)
    (files : List Path) : FileTree × Workshop × Except BuildError CompileReport :=
  match run s (fun _ => tree) options w files with
  | (w, .error e) => (tree, w, .error e)
  | (w, .ok report) =>
    if report.compiled = [] then (tree, w, .ok report)
    else
      match w.cache.save s.faults s.fresh s.now tree with
      | (tree, .ok ()) => (tree, w, .ok report)
      | (tree, .error e) => (tree, w, .error e)

end Compilation
end Rebuild
