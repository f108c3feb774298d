import Tidemark.Policy.Continuation
import Tidemark.Time.Form

/-!
# The form of continuations

A continuation is a choice whose cases with a delay hold that delay.
-/

namespace Tidemark.Continuation

open Json

/-- Reads a continuation. -/
def ofJson? : Form Continuation := fun v => do
  let (name, content) ← Form.choice v
  match name, content with
  | "PauseShard", some d => (Duration.ofJson? d).map .pauseShard
  | "PauseAllShards", some d => (Duration.ofJson? d).map .pauseAllShards
  | "RetryLater", some d => (Duration.ofJson? d).map .retryLater
  | "StopShard", none | "StopShard", some .null => some .stopShard
  | "StopAllShards", none | "StopAllShards", some .null => some .stopAllShards
  | "SkipEvent", none | "SkipEvent", some .null => some .skipEvent
  | "DoNothing", none | "DoNothing", some .null => some .doNothing
  | _, _ => none

/-- Writes a continuation. -/
def toJson : Continuation → Value
  | pauseShard d => .record [("PauseShard", d.toJson)]
  | pauseAllShards d => .record [("PauseAllShards", d.toJson)]
  | retryLater d => .record [("RetryLater", d.toJson)]
  | c => .text c.text

end Tidemark.Continuation
