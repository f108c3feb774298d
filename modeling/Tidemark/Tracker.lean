import Tidemark.Broadcast
import Tidemark.Shard.State
import Tidemark.Watched

/-!
# The tracker

The tracker carries the high water mark to the shards, and the announcements of the shards to
whoever listens. The published mark never goes down. A subscriber may miss marks in between but
never the latest one.
-/

namespace Tidemark

/-- Publishes the high water mark and the announcements of shards. -/
structure Tracker where
  mark : Watched Position := ⟨0, 0⟩
  /-- The number of live subscriptions to the mark. -/
  subscribers : Nat := 0
  states : Broadcast ShardState := {}
  /-- The tracker is gone; what it published last can still be read. -/
  gone : Bool := false
  deriving Repr, Inhabited

/-- The view that a shard has of the mark. -/
structure Subscription where
  shard : ShardName
  /-- The version of the mark that was seen last. -/
  seen : Nat
  deriving DecidableEq, Repr, Inhabited

/-- What a subscriber finds who asks for a newer mark. -/
inductive Polled where
  | mark (p : Position)
  /-- There is no newer mark yet. -/
  | pending
  /-- There will be no newer mark. -/
  | ended
  deriving DecidableEq, Repr, Inhabited

namespace Tracker

/-- Publishes a mark, and says whether it is higher than the one before; others are ignored. -/
def markHighWater (t : Tracker) (p : Position) : Bool × Tracker :=
  if t.mark.value < p then (true, { t with mark := t.mark.put p }) else (false, t)

/-- The latest published mark. -/
def highWaterMark (t : Tracker) : Position := t.mark.value

/-- Subscribes a shard to the mark. The present mark counts as seen. -/
def subscribe (t : Tracker) (shard : ShardName) : Subscription × Tracker :=
  (⟨shard, t.mark.version⟩, { t with subscribers := t.subscribers + 1 })

/-- Ends a subscription. -/
def unsubscribe (t : Tracker) : Tracker := { t with subscribers := t.subscribers - 1 }

/-- Publishes an announcement. -/
def publish (t : Tracker) (s : ShardState) : Tracker := { t with states := t.states.send s }

/-- Where a receiver of the announcements from now on begins. -/
def subscribeStates (t : Tracker) : Nat := t.states.sent

/-- Lets the tracker go. -/
def drop (t : Tracker) : Tracker :=
  { t with gone := true, states := { t.states with closed := true } }

end Tracker

namespace Subscription

/-- The latest mark, which then counts as seen. -/
def current (s : Subscription) (t : Tracker) : Position × Subscription :=
  (t.mark.value, { s with seen := t.mark.version })

/-- A mark newer than the one seen last. An unseen mark is delivered also when the tracker is
gone. -/
def changed (s : Subscription) (t : Tracker) : Polled × Subscription :=
  if t.mark.isNew s.seen then (.mark t.mark.value, { s with seen := t.mark.version })
  else (if t.gone then .ended else .pending, s)

end Subscription

/-- The marks of a subscription, one after the other, beginning with the present one. -/
structure MarkStream where
  subscription : Subscription
  /-- The present mark has been delivered. -/
  begun : Bool := false
  deriving DecidableEq, Repr, Inhabited

/-- The next mark of a stream. A stream that has ended must not be asked again: it keeps no state
behind its end, and would crash. That is not told apart here, where it answers again that it has
ended. -/
def MarkStream.next (s : MarkStream) (t : Tracker) : Polled × MarkStream :=
  if s.begun then
    let (polled, subscription) := s.subscription.changed t
    (polled, { s with subscription := subscription })
  else
    let (p, subscription) := s.subscription.current t
    (.mark p, ⟨subscription, true⟩)

end Tidemark
