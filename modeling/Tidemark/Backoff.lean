import Tidemark.Time.Duration

/-!
# Backoff

How long to wait before something that failed is tried again, indexed by the number of failures.
-/

namespace Tidemark

/-- The delays between the attempts of one piece of work. -/
structure Backoff where
  delays : List Duration
  deriving DecidableEq, Repr, Inhabited

namespace Backoff

/-- The schedule used where none is configured. -/
def standard : Backoff := ⟨[.ofMillis 50, .ofMillis 100, .ofMillis 250]⟩

/-- The delay after the given number of failures, counted from one. The last delay serves for all
further failures, and without delays there is no wait. -/
def delayAfter (b : Backoff) (failures : Nat) : Duration :=
  match b.delays[max failures 1 - 1]? with
  | some d => d
  | none => b.delays.getLast?.getD .zero

end Backoff

end Tidemark
