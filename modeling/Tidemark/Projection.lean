import Tidemark.Log.Basic
import Tidemark.Policy.Failure
import Tidemark.Time.Moment

/-!
# Projections

A projection builds a read model from events, one event at a time.
-/

namespace Tidemark

/-- What comes of applying an event. -/
inductive Applied where
  | ok
  | failed (e : Failure)
  /-- The projection crashed, and its shard with it. -/
  | crashed
  deriving Inhabited

/-- What a daemon asks of a projection. -/
class Projection (π : Type) where
  /-- The name of the projection. -/
  name : π → String
  /-- The shard as which the projection consumes. -/
  shardName : π → ShardName := fun p => .whole (name p)
  /-- How long it takes to apply an event. -/
  duration : π → EventRecord → Duration := fun _ _ => .zero
  /-- Applies an event. -/
  apply : π → EventRecord → Moment → Applied × π

end Tidemark
