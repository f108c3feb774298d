import Tidemark.HighWater.Statistics
import Tidemark.Metrics.Binary64
import Tidemark.Shard.State
import Tidemark.Daemon.Health

/-!
# Measurements

Counters, gauges and histograms, each under a name and with labels. A measurement that was never
taken is absent. The functions of `Metrics` are the occasions on which something is measured.

Two of them compute a lag, which fails if the positions are too far apart; what they have set by
then stays set.
-/

namespace Tidemark

/-- What is counted. -/
inductive Counter where
  | detections (status : DetectionStatus)
  | detectionErrors (kind : String)
  | staleRechecks
  | agentRestarts
  | eventsApplied (shard : String)
  | eventsSkipped (shard : String)
  | continuations (shard kind : String)
  | retryAttempts (block : String) (success : Bool)
  | retriesExhausted (block : String)
  | storeRetries (operation : String)
  deriving DecidableEq, Repr

/-- What has a present value. -/
inductive Gauge where
  | highWaterMark
  | highestSequence
  | highWaterLag
  | agentRunning
  | daemonState
  | shardStatus (shard : String)
  | shardPosition (shard : String)
  | shardLag (shard : String)
  deriving DecidableEq, Repr

/-- What is timed. -/
inductive Histogram where
  | detection (operation : String)
  | batch (shard : String)
  deriving DecidableEq, Repr

/-- A name with labels in the order of their names. -/
def labelled (name : String) (labels : List (String × String)) : String :=
  name ++ "\x7b" ++ ",".intercalate (labels.map fun (label, value) => label ++ "=" ++ value)
    ++ "\x7d"

/-- The name and the labels of a counter. -/
def Counter.text : Counter → String
  | detections status => labelled "projection_detections_total" [("status", status.label)]
  | detectionErrors kind => labelled "projection_detection_errors_total" [("error_type", kind)]
  | staleRechecks => labelled "projection_stale_rechecks_total" []
  | agentRestarts => labelled "projection_agent_restarts_total" []
  | eventsApplied shard => labelled "projection_events_applied_total" [("shard", shard)]
  | eventsSkipped shard => labelled "projection_events_skipped_total" [("shard", shard)]
  | continuations shard kind =>
    labelled "projection_continuations_total" [("continuation", kind), ("shard", shard)]
  | retryAttempts block success =>
    labelled "projection_retry_attempts_total"
      [("block", block), ("status", if success then "success" else "failure")]
  | retriesExhausted block => labelled "projection_retry_exhausted_total" [("block", block)]
  | storeRetries operation =>
    labelled "projection_store_retries_total" [("operation", operation)]

/-- The name and the labels of a gauge. -/
def Gauge.text : Gauge → String
  | highWaterMark => labelled "projection_high_water_mark" []
  | highestSequence => labelled "projection_highest_sequence" []
  | highWaterLag => labelled "projection_high_water_lag_events" []
  | agentRunning => labelled "projection_agent_running" []
  | daemonState => labelled "projection_daemon_state" []
  | shardStatus shard => labelled "projection_shard_status" [("shard", shard)]
  | shardPosition shard => labelled "projection_shard_position" [("shard", shard)]
  | shardLag shard => labelled "projection_shard_lag_events" [("shard", shard)]

/-- The name and the labels of a histogram. -/
def Histogram.text : Histogram → String
  | detection operation =>
    labelled "projection_detection_duration_seconds" [("operation", operation)]
  | batch shard => labelled "projection_batch_duration_seconds" [("shard", shard)]

/-- Everything that has been measured. -/
structure Metrics where
  counters : List (Counter × Nat) := []
  gauges : List (Gauge × Int) := []
  histograms : List (Histogram × List Duration) := []
  deriving Inhabited

namespace Metrics

/-- Changes the entry of a key, which is made at the end if there is none. -/
def update {κ α : Type} [DecidableEq κ] (key : κ) (f : Option α → α) :
    List (κ × α) → List (κ × α)
  | [] => [(key, f none)]
  | (k, a) :: rest => if k = key then (k, f (some a)) :: rest else (k, a) :: update key f rest

/-- Adds to a counter, which counts in 64 bits. -/
def count (m : Metrics) (c : Counter) (n : Nat := 1) : Metrics :=
  { m with counters := update c (fun old => (old.getD 0 + n) % 0x10000000000000000) m.counters }

/-- Sets a gauge. -/
def set (m : Metrics) (g : Gauge) (n : Int) : Metrics :=
  { m with gauges := update g (fun _ => nearest n) m.gauges }

/-- Adds a time to a histogram. -/
def time (m : Metrics) (h : Histogram) (d : Duration) : Metrics :=
  { m with histograms := update h (fun old => old.getD [] ++ [d]) m.histograms }

/-! ## Detection -/

/-- The mark was published. -/
def setHighWaterMark (m : Metrics) (mark highest : Position) : Except Crash Unit × Metrics :=
  let m := (m.set .highWaterMark mark).set .highestSequence highest
  match Position.lead highest mark with
  | .ok lag => (.ok (), m.set .highWaterLag lag)
  | .error cause => (.error cause, m)

/-- A pass of detection was compared with the one before. -/
def recordDetection (m : Metrics) (status : DetectionStatus) : Metrics :=
  m.count (.detections status)

/-- A pass of detection failed. -/
def recordDetectionError (m : Metrics) (kind : String) : Metrics := m.count (.detectionErrors kind)

/-- A pass of detection took its time. -/
def recordDetectionLatency (m : Metrics) (operation : String) (d : Duration) : Metrics :=
  m.time (.detection operation) d

/-- A mark that stood still was looked at again. -/
def recordStaleRecheck (m : Metrics) : Metrics := m.count .staleRechecks

/-- Detection was started anew. -/
def recordAgentRestart (m : Metrics) : Metrics := m.count .agentRestarts

/-- The agent was started or stopped. -/
def setAgentRunning (m : Metrics) (running : Bool) : Metrics :=
  m.set .agentRunning (if running then 1 else 0)

/-! ## The daemon and its shards -/

/-- The number of a stage in the life of a daemon, given by name. -/
def daemonStateNumber (name : String) : Int :=
  if name = "Created" then 0 else if name = "Starting" then 1 else if name = "Running" then 2
  else if name = "ShuttingDown" then 3 else if name = "Stopped" then 4
  else if name = "Failed" then 5 else -1

/-- The number of the status of a shard, given by name. -/
def shardStatusNumber (name : String) : Int :=
  if name = "Running" then 0 else if name = "Paused" then 1 else if name = "Stopped" then 2
  else -1

/-- The daemon entered a stage. -/
def setDaemonState (m : Metrics) (name : String) : Metrics :=
  m.set .daemonState (daemonStateNumber name)

/-- A shard took on a status. -/
def setShardStatus (m : Metrics) (shard name : String) : Metrics :=
  m.set (.shardStatus shard) (shardStatusNumber name)

/-- A shard recorded a position. -/
def setShardProgress (m : Metrics) (shard : String) (position mark : Position) :
    Except Crash Unit × Metrics :=
  let m := m.set (.shardPosition shard) position
  match Position.lead mark position with
  | .ok lag => (.ok (), m.set (.shardLag shard) lag)
  | .error cause => (.error cause, m)

/-- A shard applied a batch of events. -/
def recordEventsApplied (m : Metrics) (shard : String) (n : Nat) (d : Duration) : Metrics :=
  (m.count (.eventsApplied shard) n).time (.batch shard) d

/-- A shard went on behind a failed event. -/
def recordEventSkipped (m : Metrics) (shard : String) : Metrics := m.count (.eventsSkipped shard)

/-- A failure of a shard was resolved. -/
def recordContinuation (m : Metrics) (shard kind : String) : Metrics :=
  m.count (.continuations shard kind)

/-! ## Retries -/

/-- A retry block attempted an item. -/
def recordRetryAttempt (m : Metrics) (block : String) (success : Bool) : Metrics :=
  m.count (.retryAttempts block success)

/-- A retry block gave an item up. -/
def recordRetryExhausted (m : Metrics) (block : String) : Metrics :=
  m.count (.retriesExhausted block)

/-- A call of the store was repeated. -/
def recordStoreRetry (m : Metrics) (operation : String) : Metrics :=
  m.count (.storeRetries operation)

end Metrics

end Tidemark
