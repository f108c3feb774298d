import Tidemark.Position
import Tidemark.Time.Timestamp

/-!
# High water statistics

What one detection pass found out, and how two passes compare. The high water mark is the highest
position below which every position is either committed or given up, so that reading up to it
misses nothing.
-/

namespace Tidemark

/-- What one detection pass found out. -/
structure Statistics where
  /-- The mark that was on record before the pass. -/
  lastMark : Position
  /-- The highest position that was ever assigned. -/
  highestSequence : Position
  /-- The mark that the pass computed. -/
  currentMark : Position
  /-- Where the scan for gaps began. -/
  safeStartMark : Position
  /-- The time of the log at which it was read. -/
  timestamp : Timestamp
  /-- When the mark on record was written. -/
  lastUpdated : Option Timestamp
  deriving DecidableEq, Repr, Inhabited

/-- How a detection pass compares with the pass before it. -/
inductive DetectionStatus where
  /-- The mark is the highest position assigned. -/
  | caughtUp
  /-- The mark moved on. -/
  | changed
  /-- The mark stands still below the highest position: a gap holds it back. -/
  | stale
  deriving DecidableEq, Repr, Inhabited

/-- The label under which passes of a status are counted. -/
def DetectionStatus.label : DetectionStatus → String
  | caughtUp => "caught_up"
  | changed => "changed"
  | stale => "stale"

/-- The name of a status. -/
def DetectionStatus.text : DetectionStatus → String
  | caughtUp => "CaughtUp"
  | changed => "Changed"
  | stale => "Stale"

namespace Statistics

/-- The statistics of an empty log. -/
def empty (timestamp : Timestamp) : Statistics := ⟨0, 0, 0, 0, timestamp, none⟩

/-- The pass moved the mark beyond the one on record. -/
def hasChanged (s : Statistics) : Bool := s.lastMark < s.currentMark

/-- How many assigned positions lie above the mark. -/
def lag (s : Statistics) : Except Crash Int := Position.lead s.highestSequence s.currentMark

/-- Compares a pass with the one before it. A log whose first position has been assigned and not
yet committed counts as empty. -/
def status (s previous : Statistics) : DetectionStatus :=
  if s.highestSequence = 1 ∧ s.currentMark = 0 then .caughtUp
  else if s.currentMark = s.highestSequence then .caughtUp
  else if previous.currentMark < s.currentMark then .changed
  else .stale

end Statistics

end Tidemark
