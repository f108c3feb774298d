import Tidemark.Daemon.Health
import Tidemark.HighWater.Agent
import Tidemark.Shard.Consumer

/-!
# The daemon

A daemon runs projections against an event log, up to the high water mark. Projections and rules
are registered before it is started. Starting it makes the first detection, after which the policy
is fixed and every projection has a consumer. Shutting it down stops the agent, then the
consumers, then the commands, and closes the log.
-/

namespace Tidemark

/-- A daemon over a log of type `L` with projections of type `π`. -/
structure Daemon (L π : Type) where
  config : Config.Daemon
  state : DaemonState := .created
  commons : Commons L
  agent : Agent
  /-- The rules, until the daemon has been started. -/
  policy : Policy := {}
  projections : List π := []
  /-- The supervisor, once the daemon has been started. -/
  supervisor : Option Supervisor := none
  /-- The consumers of the projections, in the same order. -/
  consumers : List Consumer := []
  /-- The consumers are to end. -/
  shutdown : Bool := false

namespace Daemon

variable {L π : Type}

/-- A daemon that has not been started. -/
def new (config : Config.Daemon) (log : L) (origin : Timestamp) : Daemon L π :=
  { config := config, commons := { log := log, origin := origin },
    agent := .new config.settings.highWater }

/-- The daemon is running. -/
def isRunning (d : Daemon L π) : Bool := d.state == .running

/-- Enters a state. -/
def enter (d : Daemon L π) (state : DaemonState) : Daemon L π :=
  { d with state := state, commons := d.commons.measure (·.setDaemonState state.text) }

/-- The error that another state would have been needed. -/
def wrongState (d : Daemon L π) (expected : DaemonState) : Error :=
  .invalidState expected.text d.state.text

/-- Refuses what is possible before the start only. -/
def requireCreated (d : Daemon L π) : Except Error Unit :=
  if d.state = .created then .ok () else .error (d.wrongState .created)

/-! ## Registration -/

/-- Adds a projection, whose shard must not be registered yet. -/
def addProjection [Projection π] (d : Daemon L π) (p : π) : Except Error (Daemon L π) := do
  d.requireCreated
  let shard := Projection.shardName p
  if shard.isHighWater then .error (.config ("shard name '" ++ shard.identity ++ "' is reserved"))
  else if d.projections.any (Projection.shardName · == shard) then
    .error (.config ("shard '" ++ shard.identity ++ "' is already registered"))
  else .ok { d with projections := d.projections ++ [p] }

/-- Changes the policy. -/
def changePolicy (d : Daemon L π) (change : Policy → Policy) : Except Error (Daemon L π) := do
  d.requireCreated
  .ok { d with policy := change d.policy }

/-- Appends a rule to the policy. -/
def addRule (d : Daemon L π) (filter : Filter) (chain : List Continuation) :
    Except Error (Daemon L π) :=
  d.changePolicy (·.add filter chain)

/-- The policy in effect. -/
def currentPolicy (d : Daemon L π) : Policy :=
  match d.supervisor with
  | some s => s.policy
  | none => d.policy

/-! ## Enquiries -/

/-- The published high water mark. -/
def highWaterMark (d : Daemon L π) : Position := d.commons.tracker.highWaterMark

/-- Subscribes to the high water mark. -/
def subscribe (d : Daemon L π) (shard : ShardName) : Subscription × Daemon L π :=
  let (subscription, tracker) := d.commons.tracker.subscribe shard
  (subscription, { d with commons := { d.commons with tracker := tracker } })

/-- All progress on record. -/
def allProgress [EventLog L] (d : Daemon L π) (now : Moment) :
    Outcome (List Progress) × Daemon L π :=
  let (outcome, commons) := d.commons.call now EventLog.allProgress
  (outcome, { d with commons := commons })

/-- The status of a shard. -/
def shardStatus [Projection π] (d : Daemon L π) (shard : ShardName) : Except Error ShardStatus :=
  match d.supervisor with
  | some s =>
    match s.shards.find? shard.identity with
    | some h => .ok h.status
    | none => .error (.shardNotFound shard.identity)
  | none =>
    if d.projections.any (Projection.shardName · == shard) then .error (d.wrongState .running)
    else .error (.shardNotFound shard.identity)

/-- The health of the shard of a handle. -/
def shardHealth (mark : Position) (h : ShardHandle) : Except Crash ShardHealth := do
  let lag ← Position.lead mark h.position
  .ok ⟨h.name.identity, h.status, h.position, lag, h.attempts⟩

/-- The health of the daemon. -/
def health (d : Daemon L π) : Except Crash HealthCheck := do
  let handles := (d.supervisor.map (·.shards.handles)).getD []
  let shards ← handles.mapM (shardHealth d.highWaterMark)
  let count (status : ShardStatus) := shards.countP (·.status == status)
  let ready := d.isRunning && d.agent.isRunning
  .ok { state := d.state, ready := ready, healthy := ready && count .stopped == 0,
        highWaterMark := d.highWaterMark,
        highestSequence := d.agent.detection.latest.map (·.highestSequence),
        lastDetection := d.agent.detection.latest.map (·.timestamp),
        agentRestarts := d.agent.restarts, shardsRunning := count .running,
        shardsPaused := count .paused, shardsStopped := count .stopped, shards := shards }

end Daemon

end Tidemark
