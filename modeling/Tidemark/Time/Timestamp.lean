import Tidemark.Fault
import Tidemark.Time.Calendar
import Tidemark.Time.Duration

/-!
# Timestamps

Moments of the world's clock, counted in nanoseconds from the beginning of 1970 in UTC. The count
takes no notice of leap seconds; a moment within a leap second is counted with the second after it
and carries a flag.
-/

namespace Tidemark

/-- A moment of the world's clock. -/
structure Timestamp where
  /-- Nanoseconds since 1970-01-01T00:00:00Z. -/
  nanos : Int
  /-- The moment lies in the leap second before the second that `nanos` names. -/
  leap : Bool := false
  deriving DecidableEq, Repr, Inhabited

namespace Timestamp

/-- Nanoseconds in a day. -/
def day : Int := 86400 * Duration.second

/-- The last moment that can be represented. -/
def last : Timestamp :=
  ⟨((Calendar.Date.mk Calendar.lastYear 12 31).toDays + 1) * day - 1, false⟩

/-- The first moment that can be represented. -/
def first : Timestamp := ⟨(Calendar.Date.mk Calendar.firstYear 1 1).toDays * day, false⟩

/-- A moment given in milliseconds since the beginning of 1970. -/
def ofMillis (ms : Int) : Timestamp := ⟨ms * Duration.millisecond, false⟩

/-- The whole milliseconds from the beginning of 1970 to the moment, rounded down. -/
def toMillis (t : Timestamp) : Int := t.nanos / Duration.millisecond

/-- The moment lies at or before the other. -/
instance : LE Timestamp := ⟨fun a b => a.nanos ≤ b.nanos⟩

instance (a b : Timestamp) : Decidable (a ≤ b) := inferInstanceAs (Decidable (a.nanos ≤ b.nanos))

/-- The moment `d` after `t`. -/
def plus (t : Timestamp) (d : Duration) : Except Crash Timestamp :=
  if t.nanos + d.inNanos ≤ last.nanos then .ok ⟨t.nanos + d.inNanos, false⟩
  else .error .timestampOverflow

/-- How long after `s` the moment `t` is, and zero if it is not after `s`. -/
def since (t s : Timestamp) : Duration := ⟨(t.nanos - s.nanos).toNat⟩

end Timestamp

end Tidemark
