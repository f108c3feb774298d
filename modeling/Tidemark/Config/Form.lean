import Tidemark.Config.Basic
import Tidemark.Json.Form

/-!
# The form of a configuration

Every field has a default, except for the path of a store that is given at all.
-/

namespace Tidemark.Config

open Json

/-- Reads the polling settings. -/
def Polling.ofJson? : Form Polling := fun v => do
  let r ← Record.read ["fast_polling_time", "slow_polling_time", "health_check_polling_time",
    "leading_edge_buffer"] v
  let standard : Polling := {}
  let fast ← r.defaulted "fast_polling_time" Form.string standard.fastPollingTime
  let slow ← r.defaulted "slow_polling_time" Form.string standard.slowPollingTime
  let health ← r.defaulted "health_check_polling_time" Form.string standard.healthCheckPollingTime
  let edge ← r.defaulted "leading_edge_buffer" Form.string standard.leadingEdgeBuffer
  some ⟨fast, slow, health, edge⟩

/-- Writes the polling settings. -/
def Polling.toJson (p : Polling) : Value :=
  .record [("fast_polling_time", .text p.fastPollingTime),
    ("slow_polling_time", .text p.slowPollingTime),
    ("health_check_polling_time", .text p.healthCheckPollingTime),
    ("leading_edge_buffer", .text p.leadingEdgeBuffer)]

/-- Reads the settings of a retry block. -/
def Retrying.ofJson? : Form Retrying := fun v => do
  let r ← Record.read ["maximum_attempts", "backoff", "max_concurrency", "queue_capacity"] v
  let standard : Retrying := {}
  let attempts ← r.defaulted "maximum_attempts" Form.unsigned32 standard.maximumAttempts
  let backoff ← r.defaulted "backoff" (Form.list Form.string) standard.backoff
  let concurrency ← r.defaulted "max_concurrency" Form.unsigned64 standard.maxConcurrency
  let capacity ← r.defaulted "queue_capacity" Form.unsigned64 standard.queueCapacity
  some ⟨attempts, backoff, concurrency, capacity⟩

/-- Writes the settings of a retry block. -/
def Retrying.toJson (r : Retrying) : Value :=
  .record [("maximum_attempts", .nat r.maximumAttempts),
    ("backoff", .array (r.backoff.map .text)),
    ("max_concurrency", .nat r.maxConcurrency),
    ("queue_capacity", .nat r.queueCapacity)]

/-- Reads the settings of shards. -/
def Consuming.ofJson? : Form Consuming := fun v => do
  let r ← Record.read ["batch_size"] v
  let size ← r.defaulted "batch_size" Form.unsigned64 (Consuming.batchSize {})
  some ⟨size⟩

/-- Writes the settings of shards. -/
def Consuming.toJson (c : Consuming) : Value := .record [("batch_size", .nat c.batchSize)]

/-- Reads the settings of detection, retries and shards. -/
def Settings.ofJson? : Form Settings := fun v => do
  let r ← Record.read ["high_water", "retry", "shards"] v
  let highWater ← r.defaulted "high_water" Polling.ofJson? {}
  let retry ← r.defaulted "retry" Retrying.ofJson? {}
  let shards ← r.defaulted "shards" Consuming.ofJson? {}
  some ⟨highWater, retry, shards⟩

/-- Writes the settings of detection, retries and shards. -/
def Settings.toJson (s : Settings) : Value :=
  .record [("high_water", s.highWater.toJson), ("retry", s.retry.toJson),
    ("shards", s.shards.toJson)]

/-- Reads where events are stored. -/
def Store.ofJson? : Form Store := fun v => do
  let r ← Record.read ["sqlite_path", "wal_mode"] v
  let path ← r.required "sqlite_path" Form.string
  let walMode ← r.defaulted "wal_mode" Form.bool true
  some ⟨path, walMode⟩

/-- Writes where events are stored. -/
def Store.toJson (s : Store) : Value :=
  .record [("sqlite_path", .text s.path), ("wal_mode", .bool s.walMode)]

/-- Reads a configuration. -/
def Daemon.ofJson? : Form Daemon := fun v => do
  let r ← Record.read ["settings", "store"] v
  let settings ← r.defaulted "settings" Settings.ofJson? {}
  let store ← r.defaulted "store" Store.ofJson? {}
  some ⟨settings, store⟩

/-- Writes a configuration. -/
def Daemon.toJson (d : Daemon) : Value :=
  .record [("settings", d.settings.toJson), ("store", d.store.toJson)]

end Tidemark.Config
