import Tidemark.Fault

/-!
# Bulkheads

A bulkhead has a fixed number of slots. Whoever asks for a slot when all are taken waits, and
slots that become free go to the waiting in the order of arrival.
-/

namespace Tidemark

/-- A bulkhead whose slots are held and waited for by members named by `ι`. -/
structure Bulkhead (ι : Type) where
  limit : Nat
  holding : List ι := []
  waiting : List ι := []
  deriving Repr, Inhabited

/-- The most places that a bulkhead or a queue may be given. -/
def maxPermits : Nat := 0x1FFFFFFFFFFFFFFF

namespace Bulkhead

variable {ι : Type} [DecidableEq ι]

/-- A bulkhead of `limit` slots, and of one slot if `limit` is zero. -/
def new (limit : Nat) : Except Crash (Bulkhead ι) :=
  if limit ≤ maxPermits then .ok { limit := max limit 1 } else .error .tooManyPermits

/-- The number of slots that are taken. -/
def inFlight (b : Bulkhead ι) : Nat := b.holding.length

/-- A slot is free. -/
def hasRoom (b : Bulkhead ι) : Bool := b.holding.length < b.limit

/-- Asks for a slot on behalf of `i`. -/
def acquire (b : Bulkhead ι) (i : ι) : Bulkhead ι :=
  if b.hasRoom then { b with holding := b.holding ++ [i] }
  else { b with waiting := b.waiting ++ [i] }

/-- Gives back the slot of `i`, which passes to the first of the waiting. -/
def release (b : Bulkhead ι) (i : ι) : Bulkhead ι :=
  if i ∈ b.holding then
    match b.waiting with
    | [] => { b with holding := b.holding.erase i }
    | j :: rest => { b with holding := b.holding.erase i ++ [j], waiting := rest }
  else b

/-- Ends the waiting of `i`. -/
def cancel (b : Bulkhead ι) (i : ι) : Bulkhead ι := { b with waiting := b.waiting.erase i }

end Bulkhead

/-- What is said to those who ask a closed bulkhead for a slot. -/
def Bulkhead.closedMessage (inFlight limit : Nat) : String :=
  "bulkhead closed with " ++ toString inFlight ++ " of " ++ toString limit ++ " slots in use"

end Tidemark
