import Tidemark.Projection

/-!
# Rehearsing projections

A projection that builds nothing and follows a script: it takes its time for every event, and fails
or crashes at the events that the script names. It keeps a trace of its tries.
-/

namespace Tidemark.Rehearsal

/-- What goes wrong at an event. -/
inductive Mishap where
  | failure (e : Failure)
  | crash
  deriving Inhabited

/-- Something that goes wrong at an event, always or a number of times. -/
structure Planned where
  sequence : Position
  mishap : Mishap
  /-- How many times it still happens; always if there is no number. -/
  times : Option Nat := none
  deriving Inhabited

/-- How a try ended. -/
inductive TryEnding where
  | ok | failed | crashed
  deriving DecidableEq, Repr, Inhabited

/-- A try to apply an event. -/
structure Try where
  time : Moment
  sequence : Position
  ending : TryEnding
  deriving DecidableEq, Repr, Inhabited

/-- A projection that follows a script. -/
structure ScriptedProjection where
  name : String
  /-- The shard as which the projection consumes, if not the usual one. -/
  shard : Option ShardName := none
  delay : Duration := .zero
  plan : List Planned := []
  /-- The tries, latest first. -/
  tries : List Try := []
  deriving Inhabited

namespace ScriptedProjection

/-- The mishap in store for an event, and the plan afterwards. -/
def encounter (p : Position) : List Planned → Option Mishap × List Planned
  | [] => (none, [])
  | f :: rest =>
    if f.sequence = p ∧ f.times ≠ some 0 then
      (some f.mishap, { f with times := f.times.map (· - 1) } :: rest)
    else
      let (m, rest) := encounter p rest
      (m, f :: rest)

/-- Notes a try. -/
def note (s : ScriptedProjection) (now : Moment) (e : EventRecord) (ending : TryEnding) :
    ScriptedProjection :=
  { s with tries := ⟨now, e.sequence, ending⟩ :: s.tries }

/-- Tries an event. -/
def apply (s : ScriptedProjection) (e : EventRecord) (now : Moment) :
    Applied × ScriptedProjection :=
  let (m, plan) := encounter e.sequence s.plan
  let s := { s with plan := plan }
  match m with
  | none => (.ok, s.note now e .ok)
  | some (.failure f) => (.failed f, s.note now e .failed)
  | some .crash => (.crashed, s.note now e .crashed)

instance : Projection ScriptedProjection where
  name s := s.name
  shardName s := s.shard.getD (.whole s.name)
  duration s _ := s.delay
  apply := apply

end ScriptedProjection

end Tidemark.Rehearsal
