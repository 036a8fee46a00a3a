import Rebuild.Pool.Basic

/-!
# Bounded execution

A list of tasks goes through a pool while at most so many of them are under way at a time.  A flight is
one such run: the tasks that are still to come, the slots that are taken, and the outcomes so far.

* `Flight.fill` submits tasks in order while a slot is free.  A task that the pool turns away takes
  its slot too, with the error for an outcome.
* `Flight.settle` notes what the pool has answered.
* `Flight.collect` frees slots and keeps their outcomes.  In order, only the oldest slot can be freed;
  otherwise any slot.
-/

namespace Rebuild

/-- A task under way. -/
inductive Slot where
  /-- The pool has accepted it. -/
  | waiting (ticket : Ticket)
  /-- Its outcome is known. -/
  | settled (outcome : Outcome)
  deriving Repr

/-- A run of tasks through a pool. -/
structure Flight where
  pool : Pool
  /-- The tasks still to come. -/
  remaining : List Task
  /-- How many slots there are. -/
  limit : Nat
  /-- The outcomes are to come in the order of the tasks. -/
  ordered : Bool
  /-- The slots that are taken, the oldest first. -/
  slots : List Slot := []
  /-- The outcomes collected so far, the latest first. -/
  collected : List Outcome := []

namespace Slot

/-- The slot with what the pool has answered. -/
def settle (p : Pool) : Slot → Slot
  | waiting ticket =>
    match p.answer? ticket with
    | some outcome => settled outcome
    | none => waiting ticket
  | settled outcome => settled outcome

/-- The outcome, if it is known. -/
def outcome? : Slot → Option Outcome
  | waiting _ => none
  | settled outcome => some outcome

end Slot

namespace Flight

/-- The flight with its oldest task submitted. -/
def submitNext (f : Flight) (task : Task) (rest : List Task) : Flight :=
  match f.pool.submit task with
  | .ok (pool, ticket) => { f with pool, remaining := rest, slots := f.slots ++ [.waiting ticket] }
  | .error e => { f with remaining := rest, slots := f.slots ++ [.settled (.error e)] }

/-- Submits `tasks`, the first of those still to come, while a slot is free. -/
def fillWith (f : Flight) : List Task → Flight
  | [] => f
  | task :: rest =>
    if f.slots.length < f.limit then fillWith (f.submitNext task rest) rest else f

/-- Submits tasks while a slot is free. -/
def fill (f : Flight) : Flight := f.fillWith f.remaining

/-- Notes what the pool has answered. -/
def settle (f : Flight) : Flight := { f with slots := f.slots.map (Slot.settle f.pool) }

/-- The outcomes of the settled slots at the front, and the other slots. -/
def splitFront : List Slot → List Outcome × List Slot
  | .settled outcome :: slots =>
    let (outcomes, rest) := splitFront slots
    (outcome :: outcomes, rest)
  | slots => ([], slots)

/-- Frees slots and keeps their outcomes. -/
def collect (f : Flight) : Flight :=
  let (outcomes, slots) :=
    if f.ordered then splitFront f.slots
    else (f.slots.filterMap Slot.outcome?, f.slots.filter (·.outcome?.isNone))
  { f with slots, collected := outcomes.reverse ++ f.collected }

/-- Collects and submits what can be at once, in so many rounds at most. -/
def pump : Nat → Flight → Flight
  | 0, f => f
  | n + 1, f =>
    let next := f.settle.collect.fill
    if next.remaining.length < f.remaining.length then pump n next else next

/-- Collects and submits what can be at once. -/
def refill (f : Flight) : Flight := pump (f.remaining.length + 1) f

/-- The flight and its pool after at most so many verdicts. -/
def advance (verdict? : Task → Option Verdict) : Nat → Flight → Flight
  | 0, f => f
  | n + 1, f =>
    match f.pool.advance? verdict? with
    | some pool => advance verdict? n (refill { f with pool })
    | none => f

/-- The flight when every task that has a verdict is done. -/
def finish (f : Flight) (verdict? : Task → Option Verdict) : Flight :=
  advance verdict? (f.remaining.length + f.pool.load) f.refill

/-- The outcomes in the order in which they were collected. -/
def outcomes (f : Flight) : List Outcome := f.collected.reverse

end Flight

namespace Pool

/-- The pool after running all tasks, at most `limit` at a time, and their outcomes in order. -/
def executeWithLimit (p : Pool) (verdict? : Task → Option Verdict) (limit : Nat)
    (tasks : List Task) : Pool × List Outcome :=
  let f := Flight.finish
    { pool := p, remaining := tasks, limit := max limit 1, ordered := true } verdict?
  (f.pool, f.outcomes)

/-- The pool after running all tasks, at most `limit` at a time, and their outcomes as they come; without
a limit there are as many at a time as workers. -/
def map (p : Pool) (verdict? : Task → Option Verdict) (ordered : Bool) (limit : Option Nat)
    (tasks : List Task) : Pool × List Outcome :=
  let f := Flight.finish
    { pool := p, remaining := tasks, limit := max (limit.getD p.size) 1, ordered } verdict?
  (f.pool, f.outcomes)

/-- The pool after running all tasks, submitted at once, and their outcomes as they come. -/
def executeBatch (p : Pool) (verdict? : Task → Option Verdict) (tasks : List Task) :
    Pool × List Outcome :=
  let f := Flight.finish
    { pool := p, remaining := tasks, limit := tasks.length, ordered := false } verdict?
  (f.pool, f.outcomes)

end Pool
end Rebuild
