import Tidemark.HighWater.Statistics
import Tidemark.Time.Form

/-!
# The forms of statistics

Statistics are a record, the status of a pass is a choice.
-/

namespace Tidemark

open Json

/-- Reads the status of a pass. -/
def DetectionStatus.ofJson? : Form DetectionStatus := fun v => do
  let name ← Form.caseName v
  [caughtUp, changed, stale].find? (·.text == name)

/-- Reads statistics. -/
def Statistics.ofJson? : Form Statistics := fun v => do
  let r ← Record.read ["last_mark", "highest_sequence", "current_mark", "safe_start_mark",
    "timestamp", "last_updated"] v
  let lastMark ← r.required "last_mark" Form.signed64
  let highest ← r.required "highest_sequence" Form.signed64
  let current ← r.required "current_mark" Form.signed64
  let safeStart ← r.required "safe_start_mark" Form.signed64
  let timestamp ← r.required "timestamp" Timestamp.ofJson?
  let lastUpdated ← r.optional "last_updated" Timestamp.ofJson?
  some ⟨lastMark, highest, current, safeStart, timestamp, lastUpdated⟩

/-- Writes statistics. -/
def Statistics.toJson (s : Statistics) : Value :=
  .record [("last_mark", .integer s.lastMark), ("highest_sequence", .integer s.highestSequence),
    ("current_mark", .integer s.currentMark), ("safe_start_mark", .integer s.safeStartMark),
    ("timestamp", s.timestamp.toJson), ("last_updated", .option Timestamp.toJson s.lastUpdated)]

end Tidemark
