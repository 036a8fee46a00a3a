import Rebuild.Watch.Change

/-!
# Debouncing

Changes often come in bursts, and one pass is to see all of a burst.  The machine waits until no change
has come for a while, starts a pass, and keeps what comes during the pass for the next one.

The machine holds no clock: it is told that the timer fired or that the pass is over, and says what is
to be done.
-/

namespace Rebuild

/-- Where debouncing stands. -/
inductive Debounce where
  /-- Nothing has changed. -/
  | idle
  /-- These changes wait for the timer. -/
  | accumulating (pending : ChangeSet)
  /-- A pass runs, and these changes have come since it began. -/
  | compiling (buffered : ChangeSet)

/-- What is to be done. -/
inductive Action where
  | nothing
  /-- The timer starts anew. -/
  | resetTimer
  /-- A pass over these changes starts. -/
  | compile (changes : ChangeSet)

namespace Debounce

/-- A pass runs. -/
def isCompiling : Debounce → Bool
  | compiling _ => true
  | _ => false

/-- The changes that no pass has taken yet. -/
def held : Debounce → ChangeSet
  | idle => ∅
  | accumulating pending => pending
  | compiling buffered => buffered

/-- A file changed. -/
def change : Debounce → Change → Debounce × Action
  | idle, c => (accumulating (PathMap.put ∅ c.path c.kind), .resetTimer)
  | accumulating pending, c => (accumulating (pending.put c.path c.kind), .resetTimer)
  | compiling buffered, c => (compiling (buffered.put c.path c.kind), .nothing)

/-- The timer fired. -/
def timer : Debounce → Debounce × Action
  | accumulating pending => (compiling ∅, .compile pending)
  | other => (other, .nothing)

/-- The pass is over.  What came during the pass starts the next one at once. -/
def finished : Debounce → Debounce × Action
  | compiling buffered =>
    if buffered.isEmpty then (idle, .nothing) else (compiling ∅, .compile buffered)
  | other => (other, .nothing)

end Debounce
end Rebuild
