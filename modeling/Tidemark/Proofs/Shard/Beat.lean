import Tidemark.Proofs.Shard.Surroundings

/-!
# Consumers, seen from the events

Seen from the events, a consumer is between batches, about to fetch, in the middle of a batch, or
held up by a failure in the middle of one: this is its `Posture`. What it does to events and to its
progress is a `Deed`. `Beat` lists all that a step can do in these terms, so that what holds of
events and progress along every run is proved by cases on `Beat` alone.
-/

namespace Tidemark

open LogView

/-- What a consumer does to events or to its progress. -/
inductive Deed where
  /-- A batch above a position was fetched. -/
  | began (committed : Position)
  /-- An event was handed to the projection while a mark was published. -/
  | tried (e : EventRecord) (mark : Position) (ok : Bool)
  /-- A failed event was resolved as dealt with. -/
  | skipped (e : EventRecord)
  /-- Progress was recorded. -/
  | recorded (p : Position)
  /-- Progress was to be recorded and was not. -/
  | refused (p : Position)
  deriving DecidableEq, Repr

/-- Where a consumer stands, seen from the events. -/
inductive Posture where
  /-- No batch is under way. The progress may be known. -/
  | free (position : Option Position)
  /-- The events above a position and up to a mark are to be fetched. -/
  | bound (committed mark : Position)
  /-- A batch is under way. -/
  | busy (batch : Batch)
  /-- A failure holds up a batch, which will be given up for a position if it is not skipped. -/
  | stuck (batch : Batch) (saved : Position)
  /-- The consumer has crashed. -/
  | lost

/-! ## Deeds and postures of consumers -/

namespace Interrupted

/-- The posture of a consumer whose progress is `position` and which a failure has interrupted. -/
def posture (position : Option Position) : Interrupted → Posture
  | loading | fetching => .free position
  | saving batch _ | closing batch => .stuck batch batch.committed
  | applying batch saved => .stuck batch saved

/-- An interrupted batch is one that can have been interrupted there. -/
def Coherent : Interrupted → Prop
  | loading | fetching => True
  | saving batch _ => batch.events ≠ [] ∧ batch.committed < batch.handled
  | applying batch _ => batch.events ≠ []
  | closing batch => batch.events = []

/-- The deed of going on as if the failure had not been. -/
def skipped : Interrupted → Option Deed
  | applying batch _ => batch.events.head?.map .skipped
  | _ => none

/-- The deed of acting on the continuation of the failure. -/
def resolved (i : Interrupted) : Except Error Continuation → Option Deed
  | .ok .skipEvent | .ok .doNothing => i.skipped
  | _ => none

end Interrupted

/-- The event was applied. -/
def Applied.isOk : Applied → Bool
  | ok => true
  | _ => false

/-- The deed of recording a position, given the outcome. -/
def Deed.ofWrite {α : Type} (p : Position) : Outcome α → Deed
  | .ok _ => .recorded p
  | .error _ => .refused p

namespace Consumer

/-- The posture of a consumer. -/
def posture (c : Consumer) : Posture :=
  match c.stage with
  | .opening | .pausing _ _ | .loading | .idle | .ended => .free c.position
  | .fetching committed mark => .bound committed mark
  | .applying batch _ | .saving batch _ | .closing batch => .busy batch
  | .failing i _ | .reporting i _ | .backingOff i _ => i.posture c.position
  | .crashed => .lost

/-- The stage of a consumer fits what it carries along. -/
def Coherent (c : Consumer) : Prop :=
  match c.stage with
  | .loading => c.position = none
  | .fetching committed _ => c.position = some committed
  | .saving batch _ => batch.events ≠ [] ∧ batch.committed < batch.handled
  | .closing batch => batch.events = []
  | .failing i _ | .reporting i _ | .backingOff i _ => i.Coherent
  | _ => True

variable {L π : Type} [EventLog L] [Projection π]

/-- What the next step of a consumer does to events or to its progress. -/
def deed (c : Consumer) (p : π) (s : Surroundings L) (now : Moment) : Option Deed :=
  let name := (s.handle c.identity).name
  match c.stage with
  | .fetching committed mark =>
    match (s.call now (EventLog.fetchEvents committed mark (max s.batchSize 1))).1 with
    | .ok _ => some (.began committed)
    | .error _ => none
  | .applying batch _ =>
    batch.events.head?.map fun e => .tried e s.mark (Projection.apply p e now).1.isOk
  | .saving batch _ =>
    some (.ofWrite batch.handled (s.call now (EventLog.persistMark name batch.handled)).1)
  | .closing batch =>
    if batch.target ≤ batch.committed then none
    else some (.ofWrite batch.target (s.call now (EventLog.persistMark name batch.target)).1)
  | .reporting i (.done outcome) => i.resolved outcome
  | _ => none

end Consumer

/-! ## Beats -/

/-- Where a consumer may be once it has gone into its next round with a position. -/
inductive Rounds (mark : Position) (position : Option Position) : Posture → Prop where
  | rests : Rounds mark position (.free position)
  | fetches {p : Position} (hp : position = some p) (hmark : p < mark) :
    Rounds mark position (.bound p mark)

/-- All that a step can do, while a mark is published, to a consumer's posture and to its progress
on record, by which deed. -/
inductive Beat (mark : Position) (events : List EventRecord) (limit : Nat) :
    Posture → Position → Option Deed → Posture → Position → Prop where
  /-- A consumer between batches goes on. -/
  | rounds {position : Option Position} {q : Posture} {r : Position}
    (h : Rounds mark position q) : Beat mark events limit (.free position) r none q r
  /-- The progress is loaded. -/
  | loads {q : Posture} {r : Position} (h : Rounds mark (some r) q) :
    Beat mark events limit (.free none) r none q r
  /-- A consumer crashes without having done anything. -/
  | crashes {q : Posture} {r : Position} : Beat mark events limit q r none .lost r
  /-- Events could not be fetched. -/
  | unbound {c m r : Position} : Beat mark events limit (.bound c m) r none (.free (some c)) r
  /-- A batch is fetched. -/
  | begins {c m r : Position} {begun : Moment} {es : List EventRecord}
    (h : es = (eventsWithin c m events).take limit) :
    Beat mark events limit (.bound c m) r (some (.began c))
      (.busy { committed := c, mark := m, begun := begun, events := es,
               target := Consumer.target es limit m, handled := c }) r
  /-- An event is applied. -/
  | applies {b : Batch} {r : Position} {e : EventRecord} {es : List EventRecord}
    (h : b.events = e :: es) :
    Beat mark events limit (.busy b) r (some (.tried e mark true))
      (.busy { b with events := es, handled := e.sequence, applied := b.applied + 1 }) r
  /-- An event fails, and there is no progress to record. -/
  | fails {b : Batch} {r : Position} {e : EventRecord} {es : List EventRecord}
    (h : b.events = e :: es) (hh : b.handled ≤ b.committed) :
    Beat mark events limit (.busy b) r (some (.tried e mark false)) (.stuck b b.committed) r
  /-- An event fails, and the progress before it is to be recorded. -/
  | defers {b : Batch} {r : Position} {e : EventRecord} {es : List EventRecord}
    (h : b.events = e :: es) (hh : b.committed < b.handled) :
    Beat mark events limit (.busy b) r (some (.tried e mark false)) (.busy b) r
  /-- The projection crashes at an event. -/
  | wrecks {b : Batch} {r : Position} {e : EventRecord} {es : List EventRecord}
    (h : b.events = e :: es) :
    Beat mark events limit (.busy b) r (some (.tried e mark false)) .lost r
  /-- A batch is at its end. -/
  | runsOut {b : Batch} {r : Position} (h : b.events = []) :
    Beat mark events limit (.busy b) r none (.busy b) r
  /-- The progress before a failed event is recorded. -/
  | saves {b : Batch} {r : Position} (h : b.events ≠ []) (hh : b.committed < b.handled) :
    Beat mark events limit (.busy b) r (some (.recorded b.handled)) (.stuck b b.handled) b.handled
  /-- The progress before a failed event cannot be recorded. -/
  | refusesSave {b : Batch} {r : Position} {q : Posture} (h : b.events ≠ [])
    (hh : b.committed < b.handled) (hq : q = .stuck b b.committed ∨ q = .lost) :
    Beat mark events limit (.busy b) r (some (.refused b.handled)) q r
  /-- The progress after a batch is recorded. -/
  | closes {b : Batch} {r : Position} {q : Posture} (h : b.events = [])
    (ht : b.committed < b.target) (hq : Rounds mark (some b.target) q ∨ q = .lost) :
    Beat mark events limit (.busy b) r (some (.recorded b.target)) q b.target
  /-- The progress after a batch cannot be recorded. -/
  | refusesClose {b : Batch} {r : Position} {q : Posture} (h : b.events = [])
    (ht : b.committed < b.target) (hq : q = .stuck b b.committed ∨ q = .lost) :
    Beat mark events limit (.busy b) r (some (.refused b.target)) q r
  /-- A batch that leads nowhere ends. -/
  | passes {b : Batch} {r : Position} {q : Posture} (h : b.events = [])
    (ht : b.target ≤ b.committed) (hq : Rounds mark (some b.committed) q) :
    Beat mark events limit (.busy b) r none q r
  /-- A failure goes on holding up a batch. -/
  | stays {b : Batch} {saved r : Position} :
    Beat mark events limit (.stuck b saved) r none (.stuck b saved) r
  /-- The failed event is skipped. -/
  | skips {b : Batch} {saved r : Position} {e : EventRecord} {es : List EventRecord}
    (h : b.events = e :: es) :
    Beat mark events limit (.stuck b saved) r (some (.skipped e))
      (.busy { b with events := es, handled := e.sequence }) r
  /-- A batch is given up for the position that is held to be on record. -/
  | restarts {b : Batch} {saved r : Position} {q : Posture} (hq : Rounds mark (some saved) q) :
    Beat mark events limit (.stuck b saved) r none q r

end Tidemark
