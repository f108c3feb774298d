import Tidemark.Tracker

/-!
# Rehearsing a tracker

A tracker with any number of subscriptions, streams of marks and receivers of announcements, each
kind in a table of its own. `World.perform` carries out one action.
-/

namespace Tidemark.Rehearsal.Tracker

/-- Things under numbers. -/
abbrev Table (α : Type) := List (Int × α)

/-- A table without an entry. -/
def Table.without {α : Type} (t : Table α) (id : Int) : Table α := t.filter (·.1 ≠ id)

/-- A table with an entry in place of the one under the same number. -/
def Table.put {α : Type} (t : Table α) (id : Int) (a : α) : Table α := (id, a) :: t.without id

/-- A tracker and those who listen to it. -/
structure World where
  tracker : Tidemark.Tracker := {}
  subscriptions : Table Subscription := []
  streams : Table MarkStream := []
  /-- For each receiver of announcements, how many it has received or lost. -/
  receivers : Table Nat := []

/-- What is done. -/
inductive Action where
  | mark (p : Position)
  | get
  | count
  | subscribe (id : Int) (shard : ShardName)
  | current (id : Int)
  | changed (id : Int)
  | intoStream (id : Int)
  | next (id : Int)
  | drop (id : Int)
  /-- Begins to receive announcements. -/
  | listen (id : Int)
  /-- Publishes announcements at successive positions. -/
  | publish (shard : ShardName) (p : Position) (action : ShardAction) (times : Nat)
  | receive (id : Int)
  | dropTracker

/-- What an action answers. -/
inductive Result where
  | none
  | advanced (advanced : Bool)
  | position (p : Position)
  | count (n : Nat)
  | identity (identity : String)
  | polled (answer : Polled)
  | received (answer : Received ShardState)

namespace World

/-- Ends what is subscribed under a number in one of the tables. -/
def release {α : Type} (w : World) (t : Table α) (id : Int) : Tidemark.Tracker :=
  if (t.lookup id).isSome then w.tracker.unsubscribe else w.tracker

/-- Carries out an action that needs the tracker. -/
def attend (w : World) : Action → Result × World
  | .mark p =>
    let (advanced, t) := w.tracker.markHighWater p
    (.advanced advanced, { w with tracker := t })
  | .get => (.position w.tracker.highWaterMark, w)
  | .count => (.count w.tracker.subscribers, w)
  | .subscribe id shard =>
    let (s, t) := (w.release w.subscriptions id).subscribe shard
    (.identity shard.identity,
      { w with tracker := t, subscriptions := w.subscriptions.put id s })
  | .listen id =>
    (.none, { w with receivers := w.receivers.put id w.tracker.subscribeStates })
  | .publish shard p action times =>
    let t := (List.range times).foldl (fun t (i : Nat) =>
      Tidemark.Tracker.publish t ⟨shard.identity, p + i, action⟩) w.tracker
    (.none, { w with tracker := t })
  | _ => (.none, w)

/-- Carries out an action. What needs a tracker that is gone, or names nothing, has no effect. -/
def perform (w : World) (a : Action) : Result × World :=
  match a with
  | .current id =>
    match w.subscriptions.lookup id with
    | some s =>
      let (p, s) := s.current w.tracker
      (.position p, { w with subscriptions := w.subscriptions.put id s })
    | none => (.none, w)
  | .changed id =>
    match w.subscriptions.lookup id with
    | some s =>
      let (polled, s) := s.changed w.tracker
      (.polled polled, { w with subscriptions := w.subscriptions.put id s })
    | none => (.none, w)
  | .intoStream id =>
    match w.subscriptions.lookup id with
    | some s =>
      (.none, { w with tracker := w.release w.streams id
                       subscriptions := w.subscriptions.without id
                       streams := w.streams.put id ⟨s, false⟩ })
    | none => (.none, w)
  | .next id =>
    match w.streams.lookup id with
    | some s =>
      let (polled, s) := s.next w.tracker
      (.polled polled, { w with streams := w.streams.put id s })
    | none => (.none, w)
  | .drop id =>
    let w := { w with tracker := w.release w.subscriptions id,
                      subscriptions := w.subscriptions.without id }
    (.none, { w with tracker := w.release w.streams id, streams := w.streams.without id })
  | .receive id =>
    match w.receivers.lookup id with
    | some next =>
      let (received, next) := w.tracker.states.receive next
      (.received received, { w with receivers := w.receivers.put id next })
    | none => (.none, w)
  | .dropTracker => (.none, { w with tracker := w.tracker.drop })
  | a => if w.tracker.gone then (.none, w) else w.attend a

end World

end Tidemark.Rehearsal.Tracker
