import Tidemark.Commons
import Tidemark.Schedule

/-!
# Scans

A scan is a detection pass that a task has begun. Statistics may take a while to arrive; after
that, every step is one round trip. A scan that got as far as computing a mark is timed, whether
it succeeds or fails, unless it crashes.
-/

namespace Tidemark

/-- A detection pass under way. -/
structure Scan where
  pass : Pass
  /-- The pass looks at a safe zone only. -/
  inZone : Bool
  /-- When the pass was begun. -/
  begun : Moment
  /-- When the statistics arrive. -/
  due : Moment
  deriving DecidableEq, Repr, Inhabited

/-- What a step of a scan leads to. -/
inductive Scan.Next where
  | more (scan : Scan)
  | ended (outcome : Outcome Statistics)

namespace Scan

variable {L : Type} [EventLog L]

/-- Begins a pass, in a safe zone if one is given. -/
def begin_ (c : Commons L) (now : Moment) (zone : Option Timestamp) : Scan :=
  ⟨.reading zone, zone.isSome, now, now.wake (EventLog.latency c.log)⟩

/-- What a scan waits for. -/
def wait (s : Scan) (now : Moment) : Wait := .till now s.due

/-- The name under which a pass is timed. -/
def operation (s : Scan) : String := if s.inZone then "detect_in_safe_zone" else "detect"

/-- Records how long a pass took. -/
def time (s : Scan) (c : Commons L) (now : Moment) : Commons L :=
  c.measure (·.recordDetectionLatency s.operation ⟨now - s.begun⟩)

/-- The next round trip. -/
def step (s : Scan) (c : Commons L) (now : Moment) : Next × Commons L :=
  let (outcome, c) := c.call now s.pass.step
  match outcome with
  | .ok (.more pass) => (.more { s with pass := pass }, c)
  | .ok (.found found) => (.ended (.ok found), s.time c now)
  | .error (.error e) =>
    (.ended (.error (.error e)), if s.pass.isComputing then s.time c now else c)
  | .error (.crash cause) => (.ended (.error (.crash cause)), c)

end Scan

end Tidemark
