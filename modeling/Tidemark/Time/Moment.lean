import Tidemark.Fault
import Tidemark.Time.Duration

/-!
# Moments

The tasks of a daemon run by a clock that only goes forward. A moment of it is the time since the
clock was started. The timers of the clock go off at whole milliseconds.
-/

namespace Tidemark

/-- A moment of the clock, in nanoseconds since it was started. -/
abbrev Moment := Nat

namespace Moment

/-- The first moment that cannot be represented. -/
def limit : Nat := 0x8000000000000000 * Duration.second

/-- How far ahead a wait ends whose end cannot be represented: thirty years. -/
def farAhead : Nat := 30 * 365 * 86400 * Duration.second

/-- The moment `d` after `now`. -/
def after (now : Moment) (d : Duration) : Except Crash Moment :=
  if now + d.inNanos < limit then .ok (now + d.inNanos) else .error .momentOverflow

/-- The moment at which a wait of length `d` ends. -/
def wake (now : Moment) (d : Duration) : Moment :=
  if now + d.inNanos < limit then now + d.inNanos else now + farAhead

/-- The whole millisecond at which a timer for the moment goes off. -/
def tick (m : Moment) : Moment :=
  (m + Duration.millisecond - 1) / Duration.millisecond * Duration.millisecond

/-- The whole milliseconds up to the moment. -/
def millis (m : Moment) : Nat := m / Duration.millisecond

end Moment

end Tidemark
