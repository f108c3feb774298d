import Tidemark.Json.Form
import Tidemark.Shard.State

/-!
# The forms of shard names and states

Names and announcements are records, the status and the action are choices.
-/

namespace Tidemark

open Json

/-- Reads a shard name. -/
def ShardName.ofJson? : Form ShardName := fun v => do
  let r ← Record.read ["projection", "key"] v
  let projection ← r.required "projection" Form.string
  let key ← r.required "key" Form.string
  some ⟨projection, key⟩

/-- Writes a shard name. -/
def ShardName.toJson (s : ShardName) : Value :=
  .record [("projection", .text s.projection), ("key", .text s.key)]

/-- Reads the status of a shard. -/
def ShardStatus.ofJson? : Form ShardStatus := fun v => do
  let name ← Form.caseName v
  [running, paused, stopped].find? (·.text == name)

/-- Reads what happened to a shard. -/
def ShardAction.ofJson? : Form ShardAction := fun v => do
  let name ← Form.caseName v
  [started, updated, paused, resumed, skipped, stopped].find? (·.text == name)

/-- Reads an announcement. -/
def ShardState.ofJson? : Form ShardState := fun v => do
  let r ← Record.read ["shard", "sequence", "action"] v
  let shard ← r.required "shard" Form.string
  let sequence ← r.required "sequence" Form.signed64
  let action ← r.required "action" ShardAction.ofJson?
  some ⟨shard, sequence, action⟩

/-- Writes an announcement. -/
def ShardState.toJson (s : ShardState) : Value :=
  .record [("shard", .text s.shard), ("sequence", .integer s.sequence),
    ("action", .text s.action.text)]

end Tidemark
