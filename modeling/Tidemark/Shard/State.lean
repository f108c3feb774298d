import Tidemark.Position
import Tidemark.Shard.Name

/-!
# The states of a shard

A shard is running, paused or stopped, and announces what happens to it together with the position
that it has reached.
-/

namespace Tidemark

/-- What a shard is doing. -/
inductive ShardStatus where
  | running | paused | stopped
  deriving DecidableEq, Repr, Inhabited

/-- The name of a status. -/
def ShardStatus.text : ShardStatus → String
  | running => "Running"
  | paused => "Paused"
  | stopped => "Stopped"

/-- What happened to a shard. -/
inductive ShardAction where
  | started | updated | paused | resumed | skipped | stopped
  deriving DecidableEq, Repr, Inhabited

/-- The name of an action. -/
def ShardAction.text : ShardAction → String
  | started => "Started"
  | updated => "Updated"
  | paused => "Paused"
  | resumed => "Resumed"
  | skipped => "Skipped"
  | stopped => "Stopped"

/-- An announcement of a shard. -/
structure ShardState where
  /-- The identity of the shard. -/
  shard : String
  /-- The position that the shard has reached. -/
  sequence : Position
  action : ShardAction
  deriving DecidableEq, Repr, Inhabited

end Tidemark
