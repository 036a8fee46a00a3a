import Rebuild.Cache.Basic
import Rebuild.Watch.Debounce
import Rebuild.Watch.Filter

/-!
# Watch sessions

A session takes changes from a source, debounces them and runs one pass at a time.  It moves by
steps, and each is a function on the session:

* `Session.input` takes a change, or a failure of the source;
* `Session.timerFired` and `Session.passFinished` take what the session waits for;
* `Session.sourceClosed` and `Session.stop` take the two ends.

A session whose source is closed goes on until no change is left.  A session that is stopped waits for
the pass that runs, and takes nothing more.  All that a session tells is in `Session.events`.
-/

namespace Rebuild

/-- What a pass made of its files. -/
structure CompileOutcome where
  succeeded : List Path
  errors : List FileError
  deriving DecidableEq, Repr

/-- How a session watches. -/
structure WatchOptions where
  root : Path
  patterns : List String := ["**/*"]
  ignored : List String := ["**/.git/**", "**/target/**", "**/node_modules/**", "**/.kiln/**"]
  /-- How long no change may come before a pass starts, in milliseconds. -/
  debounce : Nat := 300

/-- A pass that runs. -/
structure Pass where
  cycle : Nat
  files : List Path
  /-- When it began, in milliseconds. -/
  started : Nat
  deriving DecidableEq, Repr

/-- A watch session. -/
structure Session where
  filter : PathFilter
  debounce : Nat
  machine : Debounce := .idle
  /-- When the timer fires, if it is armed. -/
  timer : Option Nat := none
  running : Option Pass := none
  /-- The number of the last pass. -/
  cycle : Nat := 0
  /-- The cache whose graph says what depends on a change. -/
  cache : Option Cache := none
  sourceOpen : Bool := true
  /-- The session takes nothing more. -/
  stopping : Bool := false
  ended : Bool := false
  /-- What was told, the latest first. -/
  events : List Event := []

namespace Session

/-- A new session. -/
def start (options : WatchOptions) (cache : Option Cache) : Except BuildError Session := do
  let filter ← PathFilter.ofTexts options.root options.patterns options.ignored
  return {
    filter
    debounce := options.debounce
    cache
    events := [.starting options.root options.patterns] }

/-- The session with an event told. -/
def tell (s : Session) (e : Event) : Session := { s with events := e :: s.events }

/-! ## Passes -/

/-- The files to compile after changes, and the cache afterwards: what changed and all that depends on
it, without the removed files, which the cache forgets. -/
def rebuildSet (cache : Option Cache) (changes : ChangeSet) : Option Cache × List Path :=
  let removed := changes.toList.filterMap fun (p, kind) => if kind = .remove then some p else none
  match cache with
  | none =>
    (none, changes.toList.filterMap fun (p, kind) => if kind = .remove then none else some p)
  | some cache =>
    let affected := cache.affected changes.keys
    let gone := removed.map Path.normalize
    (some (removed.foldl Cache.removeFile cache),
      affected.filter fun p => !gone.any p.same)

/-- The session with a pass begun. -/
def startPass (s : Session) (now : Nat) (changes : ChangeSet) : Session :=
  let (cache, files) := rebuildSet s.cache changes
  let cycle := s.cycle + 1
  { s with cache, cycle, running := some ⟨cycle, files, now⟩ }.tell (.compiling cycle files)

/-- The session after doing what its machine says. -/
def perform (s : Session) (now : Nat) : Debounce × Action → Session
  | (machine, .nothing) => { s with machine }
  | (machine, .resetTimer) => { s with machine, timer := some (now + s.debounce) }
  | (machine, .compile changes) => { s with machine }.startPass now changes

/-- The session with the end of its pass told. -/
def tellOutcome (s : Session) (now : Nat) (pass : Pass) :
    Except BuildError CompileOutcome → Session
  | .ok outcome =>
    s.tell <| .compiled {
      cycle := pass.cycle
      files := pass.files
      succeeded := outcome.succeeded.length
      failed := outcome.errors.length
      durationMs := now - pass.started
      errors := outcome.errors }
  | .error e => s.tell (.error e.message)

/-! ## Steps -/

/-- The session is at its end. -/
def finish (s : Session) : Session := { s with machine := .idle, timer := none, ended := true }

/-- A session without a source ends when it waits for nothing. -/
def checkEnd (s : Session) : Session :=
  if !s.sourceOpen && s.timer.isNone && s.running.isNone then s.finish else s

/-- The source delivers something. -/
def input (s : Session) (now : Nat) : WatchInput → Session
  | .failure message => (s.tell (.error message)).checkEnd
  | .change c =>
    if s.filter.accepts c.path then
      ((s.tell (.change c.kind c.path)).perform now (s.machine.change c)).checkEnd
    else s.checkEnd

/-- The timer fired. -/
def timerFired (s : Session) (now : Nat) : Session :=
  ({ s with timer := none }.perform now s.machine.timer).checkEnd

/-- The pass is over. -/
def passFinished (s : Session) (now : Nat) (outcome : Except BuildError CompileOutcome) : Session :=
  match s.running with
  | none => s
  | some pass =>
    let told := { s with running := none }.tellOutcome now pass outcome
    if s.stopping then told.finish else (told.perform now s.machine.finished).checkEnd

/-- The source delivers nothing more. -/
def sourceClosed (s : Session) : Session := { s with sourceOpen := false }.checkEnd

/-- The session takes nothing more, and ends when no pass runs. -/
def stop (s : Session) : Session :=
  if s.running.isNone then { s with stopping := true }.finish
  else { s with stopping := true, timer := none }

end Session
end Rebuild
