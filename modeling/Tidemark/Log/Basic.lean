import Tidemark.Position
import Tidemark.Shard.Name
import Tidemark.Time.Timestamp

/-!
# Event logs

An event log hands out positions, stores events at them, and keeps a progress row for every shard
and for the high water mark. `EventLog` is what detection and shards ask of a log. Each of its
calls is one round trip: it is given the log and the present time, and returns its outcome and the
log afterwards.
-/

namespace Tidemark

/-- What a log knows about one shard and about itself, read together. -/
structure RawStatistics where
  /-- The highest position that was ever assigned. -/
  highestSequence : Position
  /-- The progress of the shard, zero if there is none. -/
  lastMark : Position
  /-- When the progress was written. -/
  lastUpdated : Option Timestamp
  /-- The time of the log. -/
  timestamp : Timestamp
  deriving DecidableEq, Repr, Inhabited

/-- An event as it is handed to projections. -/
structure EventRecord where
  sequence : Position
  eventType : String
  data : List UInt8
  /-- When the event was committed. -/
  timestamp : Timestamp
  deriving DecidableEq, Repr, Inhabited

/-- The recorded progress of a shard. -/
structure Progress where
  /-- The identity of the shard. -/
  shard : String
  sequence : Position
  /-- When the progress was written. -/
  lastUpdated : Option Timestamp
  deriving DecidableEq, Repr, Inhabited

/-- A round trip to a log of type `L`. -/
abbrev LogCall (L α : Type) := L → Timestamp → Outcome α × L

/-- What detection and shards ask of an event log. -/
class EventLog (L : Type) where
  /-- How long a reading of statistics takes to arrive. -/
  latency : L → Duration := fun _ => .zero
  /-- The highest assigned position, the progress of a shard and the time, read together. -/
  fetchStatistics : ShardName → LogCall L RawStatistics
  /-- The highest assigned position. -/
  highestAssigned : LogCall L Position
  /-- The progress of a shard, zero if there is none, and when it was written. -/
  lastPersistedMark : ShardName → LogCall L (Position × Option Timestamp)
  /-- The first committed position at or above a start behind which a position is missing. -/
  findFirstGap : Position → LogCall L (Option Position)
  /-- The highest committed position at or above a start. -/
  findMaxCommitted : Position → LogCall L (Option Position)
  /-- The lowest position that was committed at or after a time. -/
  findEarliestCommitted : Timestamp → LogCall L (Option Position)
  /-- Records the progress of a shard, and says when. -/
  persistMark : ShardName → Position → LogCall L (Option Timestamp)
  /-- The progress of all shards, in the order of their identities. -/
  allProgress : LogCall L (List Progress)
  /-- The events above `after` and up to `upTo` in order, at most `limit` of them. -/
  fetchEvents (after upTo : Position) (limit : Nat) : LogCall L (List EventRecord)
  /-- Lets go of the log. -/
  close : L → L := id

end Tidemark
