import Tidemark.Log.Basic
import Tidemark.Time.Form

/-!
# The form of progress

The progress of a shard is a record.
-/

namespace Tidemark.Progress

open Json

/-- Reads the progress of a shard. -/
def ofJson? : Form Progress := fun v => do
  let r ← Record.read ["shard", "sequence", "last_updated"] v
  let shard ← r.required "shard" Form.string
  let sequence ← r.required "sequence" Form.signed64
  let lastUpdated ← r.optional "last_updated" Timestamp.ofJson?
  some ⟨shard, sequence, lastUpdated⟩

/-- Writes the progress of a shard. -/
def toJson (p : Progress) : Value :=
  .record [("shard", .text p.shard), ("sequence", .integer p.sequence),
    ("last_updated", .option Timestamp.toJson p.lastUpdated)]

end Tidemark.Progress
