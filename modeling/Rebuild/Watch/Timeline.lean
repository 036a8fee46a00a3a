import Rebuild.Watch.Session

/-!
# Sessions in time

A timeline is a session with a clock, the inputs that have been sent to it, and someone who runs its
passes.  Of all that is due at one moment a stop comes first, then the end of a pass, the timer, and
the inputs in their order.  When nothing is due, the clock goes on to the next deadline.
-/

namespace Rebuild

/-- Someone who runs passes, with a state of type `σ`. -/
structure PassRunner (σ : Type) where
  /-- How long a pass takes, in milliseconds. -/
  delay : Nat
  /-- The end of a pass: what it makes of its files and of the cache. -/
  run : σ → Option Cache → List Path → σ × Option Cache × Except BuildError CompileOutcome

/-- A session in time. -/
structure Timeline (σ : Type) where
  runner : PassRunner σ
  state : σ
  session : Session
  now : Nat := 0
  /-- The inputs that were sent and not taken, the oldest first. -/
  inbox : List WatchInput := []
  /-- Nothing more will be sent. -/
  closed : Bool := false
  /-- The session is to stop. -/
  stopRequested : Bool := false

namespace Timeline

variable {σ : Type}

/-- When the pass that runs is over. -/
def passEnd? (t : Timeline σ) : Option Nat :=
  t.session.running.map fun pass => pass.started + t.runner.delay

/-- The end of the pass that runs. -/
def endPass (t : Timeline σ) (pass : Pass) : Timeline σ :=
  let (state, cache, outcome) := t.runner.run t.state t.session.cache pass.files
  { t with state, session := { t.session with cache }.passFinished t.now outcome }

/-- The moment has come. -/
def isDue (t : Timeline σ) (deadline : Option Nat) : Bool := deadline.any (· ≤ t.now)

/-- The pass that is over at this moment, if it began before. -/
def overdue? (t : Timeline σ) : Option Pass :=
  t.session.running.filter fun pass => t.isDue t.passEnd? && pass.started < t.now

/-- The timeline after what the session takes next, if it is open and anything is due. -/
def take? (t : Timeline σ) : Option (Timeline σ) :=
  if t.session.stopping then none
  else if t.isDue t.session.timer then some { t with session := t.session.timerFired t.now }
  else
    match t.inbox with
    | i :: inbox => some { t with inbox, session := t.session.input t.now i }
    | [] =>
      if t.closed && t.session.sourceOpen then some { t with session := t.session.sourceClosed }
      else none

/-- The timeline after what is due first at this moment, if anything is.  A pass that takes no time
is over when nothing else is due. -/
def turn? (t : Timeline σ) : Option (Timeline σ) :=
  if t.session.ended then none
  else if t.stopRequested && !t.session.stopping then some { t with session := t.session.stop }
  else
    match t.overdue? with
    | some pass => some (t.endPass pass)
    | none =>
      match t.take? with
      | some t => some t
      | none =>
        (t.session.running.filter fun _ => t.isDue t.passEnd?).map fun pass => t.endPass pass

/-- The next moment at which something is due. -/
def nextDeadline? (t : Timeline σ) : Option Nat :=
  if t.session.ended then none
  else
    match t.session.timer, t.passEnd? with
    | some a, some b => some (min a b)
    | some a, none => some a
    | none, b => b

/-- The timeline at the moment `horizon`, or without one when nothing is left to wait for.  Of turns
and deadlines it takes at most so many. -/
def advance (horizon : Option Nat) : Nat → Timeline σ → Timeline σ
  | 0, t => t
  | fuel + 1, t =>
    match t.turn? with
    | some t => advance horizon fuel t
    | none =>
      match t.nextDeadline? with
      | some deadline =>
        if horizon.all (deadline ≤ ·) then advance horizon fuel { t with now := max t.now deadline }
        else { t with now := horizon.getD t.now }
      | none => { t with now := horizon.getD t.now }

/-- How many turns and deadlines there can be before nothing is left to wait for. -/
def fuel (t : Timeline σ) : Nat := 4 * t.inbox.length + 12

/-- The timeline after so many milliseconds. -/
def wait (t : Timeline σ) (ms : Nat) : Timeline σ := t.advance (some (t.now + ms)) t.fuel

/-- The timeline when nothing is left to wait for. -/
def settle (t : Timeline σ) : Timeline σ := t.advance none t.fuel

/-- The timeline with an input sent, if there is anyone to take it. -/
def send? (t : Timeline σ) (i : WatchInput) : Option (Timeline σ) :=
  if t.closed || t.session.ended then none else some { t with inbox := t.inbox ++ [i] }

/-- The timeline with its session stopped. -/
def stop (t : Timeline σ) : Timeline σ := { t with stopRequested := true }.settle

end Timeline
end Rebuild
