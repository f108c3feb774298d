/-!
# Broadcasts

A broadcast keeps the newest values that were sent over it. Every receiver takes them at its own
pace; one that has fallen too far behind is told once how many values it lost, and goes on with
the oldest value that is kept.
-/

namespace Tidemark

/-- A broadcast. -/
structure Broadcast (α : Type) where
  /-- The number of values that were sent. -/
  sent : Nat := 0
  /-- The values that are kept, newest first. -/
  recent : List α := []
  /-- Nothing more is sent. -/
  closed : Bool := false
  deriving Repr, Inhabited

/-- What a receiver finds. -/
inductive Received (α : Type) where
  | value (a : α)
  /-- So many values were lost. -/
  | lagged (lost : Nat)
  /-- There is nothing yet. -/
  | empty
  /-- There will be nothing more. -/
  | closed
  deriving DecidableEq, Repr, Inhabited

namespace Broadcast

variable {α : Type}

/-- How many values are kept. -/
def capacity : Nat := 256

/-- Sends a value. -/
def send (b : Broadcast α) (a : α) : Broadcast α :=
  { b with sent := b.sent + 1, recent := (a :: b.recent).take capacity }

/-- What a receiver finds that has received, or lost, the first `next` values, and how many it has
received or lost afterwards. -/
def receive (b : Broadcast α) (next : Nat) : Received α × Nat :=
  let oldest := b.sent - b.recent.length
  if next < oldest then (.lagged (oldest - next), oldest)
  else if b.sent ≤ next then (if b.closed then .closed else .empty, next)
  else
    match b.recent[b.sent - 1 - next]? with
    | some a => (.value a, next + 1)
    | none => (.empty, next)

end Broadcast

end Tidemark
