import Rebuild.Path.Basic
import Rebuild.Files.OsError
import Rebuild.Glob.Basic

/-!
# Errors of a build

What can go wrong, by cause.  A failed compile and a crashed worker concern one file, and a build
goes on after them; everything else ends the operation that met it.

The wording of every error is `BuildError.message`.  `bind_eq_ok_iff` says when a sequence of steps
that can fail succeeds, whatever its errors are.
-/

namespace Rebuild

/-- What is wrong with a configuration. -/
inductive Misconfiguration where
  | noWorkers
  | noQueueCapacity
  | noConcurrency
  | noPatterns
  | emptyPool
  | emptyQueue
  /-- A variable of the environment holds no natural number. -/
  | notANumber (name value : String)
  /-- A file holds no configuration. -/
  | invalidFile (path : Path)
  /-- A pattern cannot be read. -/
  | invalidGlob (pattern : String) (fault : Glob.Fault)
  /-- A path that has no directory to be written in. -/
  | noParent (path : Path)
  /-- Anything else, in its own words. -/
  | other (message : String)
  deriving DecidableEq, Repr

/-- The wording of what is wrong with a configuration. -/
def Misconfiguration.message : Misconfiguration → String
  | noWorkers => "workers must be at least 1"
  | noQueueCapacity => "queue_capacity must be at least 1"
  | noConcurrency => "compile.concurrency must be at least 1"
  | noPatterns => "watch.patterns must not be empty"
  | emptyPool => "worker pool size must be at least 1"
  | emptyQueue => "queue capacity must be at least 1"
  | notANumber name value =>
    name ++ " must be a non-negative integer, got '" ++ value ++ "'"
  | invalidFile path => "invalid " ++ path.text
  | invalidGlob pattern fault =>
    "invalid glob '" ++ pattern ++ "': error parsing glob '" ++ pattern ++ "': " ++ fault.message
  | noParent path => "Invalid file path '" ++ path.text ++ "': no parent directory"
  | other message => message

/-- An error of a build. -/
inductive BuildError where
  /-- Reading or writing a store of the cache failed. -/
  | store (path : Path) (operation message : String) (cause : Option OsError)
  /-- A worker crashed while it ran a task. -/
  | workerFault (worker : Nat) (task message : String)
  /-- A worker could not be started. -/
  | workerSpawn (worker : Nat) (cause : OsError)
  /-- The queue of tasks is full. -/
  | queueOverflow (capacity : Nat)
  /-- The pool takes and runs no more tasks. -/
  | poolShuttingDown
  /-- A file failed to compile. -/
  | compile (path : Path) (message : String)
  /-- Watching for changes failed. -/
  | watcher (message : String)
  /-- A file operation failed. -/
  | fileSystem (path : Path) (operation : String) (cause : OsError)
  /-- A text is no JSON, or not the JSON that was expected. -/
  | json (message : String)
  /-- The configuration is wrong. -/
  | configuration (problem : Misconfiguration)
  /-- An error with a note of what was being done. -/
  | inContext (context : String) (error : BuildError)
  deriving DecidableEq, Repr

namespace BuildError

/-- The wording of an error. -/
def message : BuildError → String
  | store path operation message _ =>
    "cache store '" ++ path.text ++ "' " ++ operation ++ " failed: " ++ message
  | workerFault worker task message =>
    "worker " ++ worker.repr ++ " faulted while running task " ++ task ++ ": " ++ message
  | workerSpawn worker cause => "failed to spawn worker " ++ worker.repr ++ ": " ++ cause.message
  | queueOverflow capacity => "task queue is full (capacity " ++ capacity.repr ++ ")"
  | poolShuttingDown => "worker pool shutting down"
  | compile path message => "failed to compile '" ++ path.text ++ "': " ++ message
  | watcher message => "watcher error: " ++ message
  | fileSystem path operation cause =>
    "file system error during " ++ operation ++ " on '" ++ path.text ++ "': " ++ cause.message
  | json message => "JSON error: " ++ message
  | configuration problem => "configuration error: " ++ problem.message
  | inContext context error => "configuration error: " ++ context ++ ": " ++ error.message

/-- The error concerns one file or task, and a build can go on. -/
def isPerTask : BuildError → Bool
  | compile .. => true
  | workerFault .. => true
  | _ => false

/-- The error goes back to another one, of the system or a library. -/
def hasCause : BuildError → Bool
  | store _ _ _ cause => cause.isSome
  | workerSpawn .. => true
  | watcher .. => true
  | fileSystem .. => true
  | json .. => true
  | _ => false

/-- A failure of the file system about which nothing else is known. -/
def ofOs (cause : OsError) : BuildError := fileSystem ⟨""⟩ "unknown" cause

/-- A failed operation on a store. -/
def storeFailure (path : Path) (operation : String) (cause : OsError) : BuildError :=
  store path operation cause.message (some cause)

end BuildError

/-! ## Steps that can fail -/

section

variable {ε α β : Type}

/-- What goes on from a result. -/
theorem ok_bind (a : α) (f : α → Except ε β) : (Except.ok a >>= f) = f a := rfl

/-- A sequence of two steps succeeds exactly if both do. -/
theorem bind_eq_ok_iff {x : Except ε α} {f : α → Except ε β} {y : β} :
    (x >>= f) = .ok y ↔ ∃ a, x = .ok a ∧ f a = .ok y := by
  cases x with
  | ok a =>
      rw [ok_bind]
      exact ⟨fun h => ⟨a, rfl, h⟩, fun ⟨_, ha, h⟩ => by cases ha; exact h⟩
  | error e =>
      refine ⟨fun h => ?_, fun ⟨_, ha, _⟩ => ?_⟩
      · cases h
      · cases ha

end

end Rebuild
