import Tidemark.Shard.State
import Tidemark.Time.Timestamp

/-!
# The state and the health of a daemon

A daemon is created, then started, then shut down; starting may fail. Its health is a snapshot of
what it knows without asking the event log.
-/

namespace Tidemark

/-- The stages in the life of a daemon. -/
inductive DaemonState where
  /-- Projections and rules may still be registered. -/
  | created
  /-- The first detection is under way. -/
  | starting
  /-- Detection and shards are at work. -/
  | running
  /-- The tasks have been told to end. -/
  | shuttingDown
  /-- All tasks have ended. -/
  | stopped
  /-- The first detection failed. -/
  | failed
  deriving DecidableEq, Repr, Inhabited

/-- The name of a stage. -/
def DaemonState.text : DaemonState → String
  | created => "Created"
  | starting => "Starting"
  | running => "Running"
  | shuttingDown => "ShuttingDown"
  | stopped => "Stopped"
  | failed => "Failed"

/-- The health of one shard. -/
structure ShardHealth where
  /-- The identity of the shard. -/
  shard : String
  status : ShardStatus
  /-- The position that the shard has recorded. -/
  position : Position
  /-- How far the position is behind the high water mark. -/
  lag : Int
  /-- Failures since the last batch that went through. -/
  failedAttempts : Nat
  deriving DecidableEq, Repr, Inhabited

/-- The health of a daemon. -/
structure HealthCheck where
  state : DaemonState
  /-- The daemon is running and so is its agent. -/
  ready : Bool
  /-- The daemon is ready and no shard has stopped. -/
  healthy : Bool
  highWaterMark : Position
  /-- The highest assigned position at the last detection. -/
  highestSequence : Option Position
  /-- The time of the last detection. -/
  lastDetection : Option Timestamp
  /-- How often detection was started anew. -/
  agentRestarts : Nat
  shardsRunning : Nat
  shardsPaused : Nat
  shardsStopped : Nat
  shards : List ShardHealth
  deriving DecidableEq, Repr, Inhabited

end Tidemark
