import Tidemark.Daemon.Health
import Tidemark.Shard.Form
import Tidemark.Time.Form

/-!
# The forms of health

The health of a shard and of a daemon are records, the stage of a daemon is a choice.
-/

namespace Tidemark

open Json

/-- Reads the stage of a daemon. -/
def DaemonState.ofJson? : Form DaemonState := fun v => do
  let name ← Form.caseName v
  [created, starting, running, shuttingDown, stopped, failed].find? (·.text == name)

/-- Reads the health of a shard. -/
def ShardHealth.ofJson? : Form ShardHealth := fun v => do
  let r ← Record.read ["shard", "status", "position", "lag", "failed_attempts"] v
  let shard ← r.required "shard" Form.string
  let status ← r.required "status" ShardStatus.ofJson?
  let position ← r.required "position" Form.signed64
  let lag ← r.required "lag" Form.signed64
  let failed ← r.required "failed_attempts" Form.unsigned32
  some ⟨shard, status, position, lag, failed⟩

/-- Writes the health of a shard. -/
def ShardHealth.toJson (h : ShardHealth) : Value :=
  .record [("shard", .text h.shard), ("status", .text h.status.text),
    ("position", .integer h.position), ("lag", .integer h.lag),
    ("failed_attempts", .nat h.failedAttempts)]

/-- Reads the health of a daemon. -/
def HealthCheck.ofJson? : Form HealthCheck := fun v => do
  let r ← Record.read ["state", "ready", "healthy", "high_water_mark", "highest_sequence",
    "last_detection", "agent_restarts", "shards_running", "shards_paused", "shards_stopped",
    "shards"] v
  let state ← r.required "state" DaemonState.ofJson?
  let ready ← r.required "ready" Form.bool
  let healthy ← r.required "healthy" Form.bool
  let mark ← r.required "high_water_mark" Form.signed64
  let highest ← r.optional "highest_sequence" Form.signed64
  let detection ← r.optional "last_detection" Timestamp.ofJson?
  let restarts ← r.required "agent_restarts" Form.unsigned64
  let running ← r.required "shards_running" Form.unsigned64
  let paused ← r.required "shards_paused" Form.unsigned64
  let stopped ← r.required "shards_stopped" Form.unsigned64
  let shards ← r.required "shards" (Form.list ShardHealth.ofJson?)
  some ⟨state, ready, healthy, mark, highest, detection, restarts, running, paused, stopped,
    shards⟩

/-- Writes the health of a daemon. -/
def HealthCheck.toJson (h : HealthCheck) : Value :=
  .record [("state", .text h.state.text), ("ready", .bool h.ready), ("healthy", .bool h.healthy),
    ("high_water_mark", .integer h.highWaterMark),
    ("highest_sequence", .option .integer h.highestSequence),
    ("last_detection", .option Timestamp.toJson h.lastDetection),
    ("agent_restarts", .nat h.agentRestarts), ("shards_running", .nat h.shardsRunning),
    ("shards_paused", .nat h.shardsPaused), ("shards_stopped", .nat h.shardsStopped),
    ("shards", .array (h.shards.map ShardHealth.toJson))]

end Tidemark
