import Tidemark.Policy.Rule
import Tidemark.Retry.Block
import Tidemark.Shard.Handle

/-!
# The supervisor

The supervisor counts the failures that are reported for a shard and resolves them by the policy.
A continuation that concerns every shard is queued as a command, which a retry block carries to
all handles; the shard that failed acts on it by itself.
-/

namespace Tidemark

/-- The retry block that carries commands to the handles. -/
abbrev CommandBlock := Retry.Block Command Command

/-- Resolves failures. -/
structure Supervisor where
  policy : Policy
  shards : Registry
  commands : CommandBlock
  deriving Inhabited

/-- Where someone stands who reports a failure. -/
inductive Reporting where
  /-- The failure is resolved and its command is on its way into the queue. -/
  | posting (continuation : Continuation) (present : Retry.Posting Command Command)
  /-- The report has been dealt with. -/
  | done (outcome : Except Error Continuation)
  deriving Inhabited

namespace Supervisor

/-- Carries out commands, which takes no time. -/
def commandHandler : Handler Command Command Registry where
  start command now shards := ((command, now), shards)
  finish command now shards :=
    match shards.apply now command with
    | .ok shards => (.ok (), shards)
    | .error cause => (.error (.crash cause), shards)

/-- A supervisor of shards. -/
def new (policy : Policy) (names : List ShardName) (retry : Config.Retrying) :
    Except Crash Supervisor := do
  let commands ← Retry.Block.new "daemon_commands" retry
  .ok ⟨policy, .ofNames names, commands⟩

/-- Changes the handle of a shard. -/
def modify (s : Supervisor) (identity : String) (f : ShardHandle → ShardHandle) : Supervisor :=
  { s with shards := s.shards.modify identity f }

/-- Counts a failure of a shard and resolves it; `none` if there is no such shard. -/
def resolve? (s : Supervisor) (identity : String) (e : Failure) :
    Option (Continuation × Supervisor) :=
  (s.shards.find? identity).map fun h =>
    let (attempt, counted) := h.nextAttempt
    let c := s.policy.determine e attempt
    (c, s.modify identity fun _ => if c.resolves then counted.resetAttempts else counted)

/-- Reports a failure of a shard. -/
def report (s : Supervisor) (m : Metrics) (identity : String) (e : Failure) :
    Reporting × Supervisor × Metrics :=
  match s.resolve? identity e with
  | none => (.done (.error (.shardNotFound identity)), s, m)
  | some (c, s) =>
    let m := m.recordContinuation identity c.kind
    match c.command? with
    | some command => (.posting c (.post command), s, m)
    | none => (.done (.ok c), s, m)

/-! ## Commands -/

/-- The next step of the dispatcher of commands. -/
def stepDispatcher (s : Supervisor) : Supervisor :=
  { s with commands := s.commands.stepDispatcher }

/-- The next step of a worker that carries out a command. -/
def stepWorker (s : Supervisor) (m : Metrics) (k : Nat) (now : Moment) : Supervisor × Metrics :=
  let (commands, m, shards) := s.commands.stepWorker commandHandler m k now s.shards
  ({ s with commands := commands, shards := shards }, m)

/-- Accepts no commands from now on. -/
def stop (s : Supervisor) : Supervisor := { s with commands := s.commands.stop }

end Supervisor

namespace Reporting

/-- What someone waits for who reports a failure. -/
def wait (r : Reporting) (s : Supervisor) (now : Moment) : Wait :=
  match r with
  | .posting _ (.done _) => .ready
  | .posting _ p => p.wait s.commands now
  | .done _ => .over

/-- The next step of someone who reports a failure. A command that is refused is dropped. -/
def step (r : Reporting) (s : Supervisor) (m : Metrics) (now : Moment) :
    Reporting × Supervisor × Metrics :=
  match r with
  | .posting c (.done _) => (.done (.ok c), s, m)
  | .posting c p =>
    let (p, commands, m, shards) := p.step Supervisor.commandHandler s.commands m now s.shards
    (.posting c p, { s with commands := commands, shards := shards }, m)
  | .done _ => (r, s, m)

end Reporting

end Tidemark
