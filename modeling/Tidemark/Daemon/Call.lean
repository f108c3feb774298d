import Tidemark.Daemon.Tasks

/-!
# Calls of a daemon

Starting a daemon, shutting it down and reporting a failure to it take a while. A `DaemonCall` says
where such a call stands, with a function that takes its next step.
-/

namespace Tidemark

/-- Where a call of a daemon stands. -/
inductive DaemonCall where
  /-- The agent is being started. -/
  | starting (agent : AgentCall)
  /-- The daemon was started, or could not be. -/
  | started (outcome : Outcome Statistics)
  /-- The agent is being stopped. -/
  | stopping (agent : AgentCall)
  /-- Waits for a consumer to end, but not beyond a moment. -/
  | joining (k : Nat) (due : Moment)
  /-- Waits for the commands to be dealt with. -/
  | draining
  /-- The daemon has been shut down. -/
  | stopped
  /-- A failure is being reported. -/
  | reporting (report : Reporting)
  /-- A failure was reported. -/
  | reported (outcome : Except Error Continuation)

namespace Daemon

variable {L π : Type} [EventLog L] [Projection π]

/-- The time that a consumer is given to end. -/
def drainTimeout : Duration := .ofSeconds 10

/-- Begins to start the daemon, which must not have been started. -/
def start (d : Daemon L π) (now : Moment) : DaemonCall × Daemon L π :=
  match d.requireCreated with
  | .error e => (.started (.error (.error e)), d)
  | .ok () =>
    let d := d.enter .starting
    let (call, agent) := d.agent.start d.commons now
    (.starting call, { d with agent := agent })

/-- Fixes the policy and sets off the consumers. -/
def launch (d : Daemon L π) (found : Statistics) : Outcome Statistics × Daemon L π :=
  let names := d.projections.map Projection.shardName
  let policy := d.policy
  let d := { d with policy := {} }
  match Supervisor.new policy names d.config.settings.retry with
  | .error cause => (.error (.crash cause), d)
  | .ok s =>
    let consumers := names.map fun name => { identity := name.identity }
    (.ok found, { d with supervisor := some s, consumers := consumers }.enter .running)

/-- Begins to shut the daemon down. -/
def beginShutdown (d : Daemon L π) : DaemonCall × Daemon L π :=
  match d.state with
  | .stopped => (.stopped, d)
  | .created => (.stopped, d.enter .stopped)
  | _ =>
    let d := d.enter .shuttingDown
    let (call, agent) := d.agent.stop
    (.stopping call, { d with agent := agent })

/-- Turns to the end of the commands, once the consumers have been waited for. -/
def stopCommands (d : Daemon L π) : DaemonCall × Daemon L π :=
  (.draining, { d with supervisor := d.supervisor.map (·.stop) })

/-- Turns to the end of a consumer. -/
def join (d : Daemon L π) (now : Moment) (k : Nat) : DaemonCall × Daemon L π :=
  if k < d.consumers.length then (.joining k (now.wake drainTimeout), d) else d.stopCommands

/-- Begins to report a failure of a shard. -/
def report (d : Daemon L π) (shard : ShardName) (e : Failure) : DaemonCall × Daemon L π :=
  match d.supervisor with
  | none => (.reported (.error (d.wrongState .running)), d)
  | some s =>
    let (r, s, m) := s.report d.commons.metrics shard.identity e
    (.reporting r, { d with supervisor := some s, commons := { d.commons with metrics := m } })

end Daemon

namespace DaemonCall

variable {L π : Type} [EventLog L] [Projection π]

/-- What the caller waits for. -/
def wait (call : DaemonCall) (d : Daemon L π) (now : Moment) : Wait :=
  match call with
  | .starting (.started _) | .stopping .stopped | .reporting (.done _) => .ready
  | .starting a | .stopping a => a.wait d.agent now
  | .joining k due => .either (d.consumers[k]?.all (·.isOver)) now due
  | .draining => .for (d.supervisor.all (·.commands.isDrained))
  | .reporting r =>
    match d.supervisor with
    | some s => r.wait s now
    | none => .over
  | .started _ | .stopped | .reported _ => .over

/-- The next step of a call. -/
def step (call : DaemonCall) (d : Daemon L π) (now : Moment) : DaemonCall × Daemon L π :=
  match call with
  | .starting (.started (.ok found)) =>
    let (outcome, d) := d.launch found
    (.started outcome, d)
  | .starting (.started (.error (.error e))) =>
    (.started (.error (.error e)), d.enter .failed)
  | .starting (.started (.error (.crash cause))) => (.started (.error (.crash cause)), d)
  | .starting a =>
    let (a, agent, commons) := a.step d.agent d.commons now
    (.starting a, { d with agent := agent, commons := commons })
  | .stopping .stopped => { d with shutdown := true }.join now 0
  | .stopping a =>
    let (a, agent, commons) := a.step d.agent d.commons now
    (.stopping a, { d with agent := agent, commons := commons })
  | .joining k _ => d.join now (k + 1)
  | .draining =>
    (.stopped,
      { d with commons := { d.commons with log := EventLog.close d.commons.log } }.enter .stopped)
  | .reporting (.done outcome) => (.reported outcome, d)
  | .reporting r =>
    match d.supervisor with
    | none => (call, d)
    | some s =>
      let (r, s, m) := r.step s d.commons.metrics now
      (.reporting r, { d with supervisor := some s, commons := { d.commons with metrics := m } })
  | .started _ | .stopped | .reported _ => (call, d)

end DaemonCall

end Tidemark
