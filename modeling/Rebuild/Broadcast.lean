/-!
# Broadcasts

Every message goes to everybody who listens at that moment.  The last messages are kept, as many as
the capacity, raised to a power of two; a listener that falls further behind is told how many
messages it lost, once, and goes on with the oldest that is kept.
-/

namespace Rebuild

/-- A channel for messages to many listeners. -/
structure Broadcast (α : Type) where
  /-- How many messages are kept. -/
  capacity : Nat
  /-- How many messages were sent before the ones that are kept. -/
  forgotten : Nat := 0
  /-- The messages that are kept, the oldest first. -/
  kept : List α := []
  /-- The listeners, by name, each with the number of messages it has passed. -/
  listeners : List (String × Nat) := []
  deriving Repr

namespace Broadcast

/-- What a listener receives. -/
inductive Received (α : Type) where
  /-- The next message. -/
  | message (m : α)
  /-- Nothing new. -/
  | empty
  /-- This many messages were lost. -/
  | lagged (lost : Nat)
  deriving DecidableEq, Repr

variable {α : Type}

/-- The least power of two that is at least `n`. -/
def powerAbove (n : Nat) : Nat := if n ≤ 1 then 1 else Nat.pow 2 (Nat.log2 (n - 1) + 1)

/-- A channel that keeps at least `capacity` messages. -/
def withCapacity (capacity : Nat) : Broadcast α := { capacity := powerAbove capacity }

/-- How many messages were sent. -/
def sent (b : Broadcast α) : Nat := b.forgotten + b.kept.length

/-- A listener, from now on. -/
def subscribe (b : Broadcast α) (name : String) : Broadcast α :=
  { b with listeners := b.listeners ++ [(name, b.sent)] }

/-- The listener gone. -/
def leave (b : Broadcast α) (name : String) : Broadcast α :=
  { b with listeners := b.listeners.filter (·.1 != name) }

/-- One message to all listeners. -/
def send (b : Broadcast α) (message : α) : Broadcast α :=
  if b.kept.length < b.capacity then { b with kept := b.kept ++ [message] }
  else { b with forgotten := b.forgotten + 1, kept := (b.kept ++ [message]).drop 1 }

/-- The listener's place set. -/
def moveTo (b : Broadcast α) (name : String) (place : Nat) : Broadcast α :=
  { b with listeners := b.listeners.map fun l => if l.1 = name then (name, place) else l }

/-- What the listener receives next. -/
def receive (b : Broadcast α) (name : String) : Broadcast α × Received α :=
  match b.listeners.lookup name with
  | none => (b, .empty)
  | some place =>
    if place < b.forgotten then (b.moveTo name b.forgotten, .lagged (b.forgotten - place))
    else
      match b.kept[place - b.forgotten]? with
      | some m => (b.moveTo name (place + 1), .message m)
      | none => (b, .empty)

end Broadcast
end Rebuild
