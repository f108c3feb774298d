import Tidemark.Time.Duration

/-!
# Continuations

What a shard does after a failure. Two of the continuations concern every shard of the daemon;
each of them has a `Command` that carries it to the other shards.
-/

namespace Tidemark

/-- What a shard does after a failure. -/
inductive Continuation where
  /-- Stop consuming for a while, then go on from the recorded progress. -/
  | pauseShard (delay : Duration)
  /-- Pause every shard. -/
  | pauseAllShards (delay : Duration)
  /-- Stop this shard. -/
  | stopShard
  /-- Stop every shard. -/
  | stopAllShards
  /-- Wait, then try the failed event again. -/
  | retryLater (delay : Duration)
  /-- Go on behind the failed event. -/
  | skipEvent
  /-- Take no notice of the failure. -/
  | doNothing
  deriving DecidableEq, Repr, Inhabited

/-- A continuation that is carried to every shard. -/
inductive Command where
  | pauseAll (delay : Duration)
  | stopAll
  deriving DecidableEq, Repr, Inhabited

namespace Continuation

/-- The short label under which a continuation is counted. -/
def kind : Continuation → String
  | pauseShard _ => "pause_shard"
  | pauseAllShards _ => "pause_all_shards"
  | stopShard => "stop_shard"
  | stopAllShards => "stop_all_shards"
  | retryLater _ => "retry_later"
  | skipEvent => "skip_event"
  | doNothing => "do_nothing"

/-- The form of a continuation in messages. -/
def text : Continuation → String
  | pauseShard d => "PauseShard(" ++ d.text ++ ")"
  | pauseAllShards d => "PauseAllShards(" ++ d.text ++ ")"
  | stopShard => "StopShard"
  | stopAllShards => "StopAllShards"
  | retryLater d => "RetryLater(" ++ d.text ++ ")"
  | skipEvent => "SkipEvent"
  | doNothing => "DoNothing"

/-- The command that carries a continuation to the other shards, if it concerns them. -/
def command? : Continuation → Option Command
  | pauseAllShards d => some (.pauseAll d)
  | stopAllShards => some .stopAll
  | _ => none

/-- The continuation concerns every shard. -/
def isDaemonWide (c : Continuation) : Bool := c.command?.isSome

/-- The continuation counts the failure as dealt with. -/
def resolves : Continuation → Bool
  | skipEvent | doNothing => true
  | _ => false

end Continuation

/-- The form of a command in messages. -/
def Command.text : Command → String
  | .pauseAll d => "PauseAll(" ++ d.text ++ ")"
  | .stopAll => "StopAll"

end Tidemark
