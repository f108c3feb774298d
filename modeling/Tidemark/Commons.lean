import Tidemark.HighWater.Pass
import Tidemark.Metrics.Basic
import Tidemark.Time.Moment
import Tidemark.Tracker

/-!
# What tasks have in common

The tasks of a daemon share the event log, the tracker and the measurements.
-/

namespace Tidemark

/-- What the tasks of a daemon share. -/
structure Commons (L : Type) where
  log : L
  tracker : Tracker := {}
  metrics : Metrics := {}
  /-- The time of the world when the clock was started. -/
  origin : Timestamp
  deriving Inhabited

namespace Commons

variable {L : Type}

/-- The time of the world at a moment of the clock. -/
def time (c : Commons L) (now : Moment) : Timestamp := ⟨c.origin.nanos + now, false⟩

/-- Calls the log. -/
def call {α : Type} (c : Commons L) (now : Moment) (f : LogCall L α) : Outcome α × Commons L :=
  let (outcome, log) := f c.log (c.time now)
  (outcome, { c with log := log })

/-- Takes a measurement. -/
def measure (c : Commons L) (f : Metrics → Metrics) : Commons L :=
  { c with metrics := f c.metrics }

/-- Takes a measurement that may fail. -/
def measure? (c : Commons L) (f : Metrics → Except Crash Unit × Metrics) :
    Except Crash Unit × Commons L :=
  let (outcome, m) := f c.metrics
  (outcome, { c with metrics := m })

/-- Publishes an announcement of a shard. -/
def announce (c : Commons L) (s : ShardState) : Commons L :=
  { c with tracker := c.tracker.publish s }

end Commons

end Tidemark
