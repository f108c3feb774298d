import Tidemark.Daemon.Basic

/-!
# The tasks of a daemon

Once started, a daemon consists of the tasks of its agent, a consumer for each projection, and the
dispatcher and the workers of its commands. Each of them moves on by steps of its own.
-/

namespace Tidemark

/-- The tasks of a daemon. -/
inductive DaemonTask where
  | agent (task : AgentTask)
  /-- The consumer of a projection, by its place. -/
  | consumer (k : Nat)
  | dispatcher
  | worker (k : Nat)
  deriving DecidableEq, Repr

namespace Daemon

variable {L π : Type}

/-- The tasks, oldest first. -/
def tasks (d : Daemon L π) : List DaemonTask :=
  let commands := match d.supervisor with
    | some s => .dispatcher :: s.commands.workers.map fun (k, _) => .worker k
    | none => []
  d.agent.tasks.map .agent ++ commands ++ (List.range d.consumers.length).map .consumer

/-- What the consumers of a daemon have to do with. -/
def surroundings (d : Daemon L π) (s : Supervisor) : Surroundings L :=
  ⟨d.commons, s, d.config.settings.shards.batchSize, d.shutdown⟩

/-- A daemon after its consumers have changed their surroundings. -/
def within (d : Daemon L π) (s : Surroundings L) : Daemon L π :=
  { d with commons := s.commons, supervisor := some s.supervisor }

variable [EventLog L] [Projection π]

/-- What a task waits for. -/
def wait (d : Daemon L π) (now : Moment) : DaemonTask → Wait
  | .agent task => d.agent.wait now task
  | .consumer k =>
    match d.supervisor, d.consumers[k]? with
    | some s, some c => c.wait (d.surroundings s) now
    | _, _ => .over
  | .dispatcher =>
    match d.supervisor with
    | some s => s.commands.dispatcherWait
    | none => .over
  | .worker k =>
    match d.supervisor with
    | some s => s.commands.workerWait now k
    | none => .over

/-- The next step of a consumer. -/
def stepConsumer (d : Daemon L π) (now : Moment) (k : Nat) : Daemon L π :=
  match d.supervisor, d.consumers[k]?, d.projections[k]? with
  | some s, some c, some p =>
    let (c, p, s) := c.step p (d.surroundings s) now
    { d.within s with consumers := d.consumers.set k c, projections := d.projections.set k p }
  | _, _, _ => d

/-- The next step of a task. -/
def step (d : Daemon L π) (now : Moment) : DaemonTask → Daemon L π
  | .agent task =>
    let (agent, commons) := d.agent.step d.commons now task
    { d with agent := agent, commons := commons }
  | .consumer k => d.stepConsumer now k
  | .dispatcher => { d with supervisor := d.supervisor.map (·.stepDispatcher) }
  | .worker k =>
    match d.supervisor with
    | some s =>
      let (s, m) := s.stepWorker d.commons.metrics k now
      { d with supervisor := some s, commons := { d.commons with metrics := m } }
    | none => d

end Daemon

end Tidemark
