import Tidemark.Commons
import Tidemark.Projection
import Tidemark.Shard.Supervisor

/-!
# Shard consumers

A consumer feeds one projection with the events up to the high water mark. It loads the progress
of its shard, waits until the mark lies above it, fetches a batch of events, applies them one by
one, and records the new progress.

A failed event first leads to the progress before it being recorded; then the policy says how the
consumer goes on: behind the event, from the recorded progress after a wait or a pause, or not at
all. Failures of the log go through the same policy.

A consumer that ends says so by its status and by a last announcement, unless it crashed.
-/

namespace Tidemark

/-- Events on their way into a projection. -/
structure Batch where
  /-- The progress before the batch. -/
  committed : Position
  /-- The mark up to which the batch was fetched. -/
  mark : Position
  begun : Moment
  /-- The events that have not been dealt with. -/
  events : List EventRecord
  /-- The progress after the batch. -/
  target : Position
  /-- The position of the event dealt with last. -/
  handled : Position
  /-- How many events were applied. -/
  applied : Nat := 0
  deriving DecidableEq, Repr, Inhabited

/-- What a failure interrupted, and how to go on once it is resolved. -/
inductive Interrupted where
  /-- The progress was to be loaded. -/
  | loading
  /-- Events were to be fetched. -/
  | fetching
  /-- After the failure of an event, the progress before it was to be recorded. -/
  | saving (batch : Batch) (cause : Failure)
  /-- An event was to be applied; the progress before it is on record. -/
  | applying (batch : Batch) (saved : Position)
  /-- The progress after the batch was to be recorded. -/
  | closing (batch : Batch)
  deriving Inhabited

/-- How a consumer goes on after a failure. -/
inductive Flow where
  /-- The failed event counts as dealt with. -/
  | next
  /-- Fetch again from the recorded progress. -/
  | refetch
  /-- End. -/
  | exit
  deriving DecidableEq, Repr, Inhabited

/-- Where a consumer stands. -/
inductive ConsumerStage where
  /-- It has not begun. -/
  | opening
  /-- It sits out a pause. -/
  | pausing (control : Control) (due : Moment)
  /-- It loads the progress of its shard. -/
  | loading
  /-- It waits for the mark, for an instruction or for the end. -/
  | idle
  /-- It fetches the events up to a mark. -/
  | fetching (committed mark : Position)
  /-- It applies the first event of a batch. -/
  | applying (batch : Batch) (due : Moment)
  /-- It records the progress before an event that failed. -/
  | saving (batch : Batch) (cause : Failure)
  /-- It records the progress after a batch. -/
  | closing (batch : Batch)
  /-- It has come upon a failure. -/
  | failing (interrupted : Interrupted) (e : Failure)
  /-- It reports a failure. -/
  | reporting (interrupted : Interrupted) (report : Reporting)
  /-- It waits before it goes on after a failure. -/
  | backingOff (interrupted : Interrupted) (due : Moment)
  /-- It has ended. -/
  | ended
  /-- It has crashed. -/
  | crashed
  deriving Inhabited

/-- A consumer. -/
structure Consumer where
  /-- The identity of the shard. -/
  identity : String
  stage : ConsumerStage := .opening
  /-- The version of the mark that was seen last. -/
  seenMark : Nat := 0
  /-- The version of the instruction that was seen last. -/
  seenControl : Nat := 0
  /-- The progress, once it is known. -/
  position : Option Position := none
  deriving Inhabited

/-- What consumers have to do with. -/
structure Surroundings (L : Type) where
  commons : Commons L
  supervisor : Supervisor
  /-- The most events that are fetched at a time. -/
  batchSize : Nat
  /-- The consumers are to end. -/
  shutdown : Bool
  deriving Inhabited

namespace Surroundings

variable {L : Type}

/-- The handle of a shard. -/
def handle (s : Surroundings L) (identity : String) : ShardHandle :=
  (s.supervisor.shards.find? identity).getD { name := ⟨identity, ""⟩ }

/-- Changes the handle of a shard. -/
def modify (s : Surroundings L) (identity : String) (f : ShardHandle → ShardHandle) :
    Surroundings L :=
  { s with supervisor := s.supervisor.modify identity f }

/-- Takes a measurement. -/
def measure (s : Surroundings L) (f : Metrics → Metrics) : Surroundings L :=
  { s with commons := s.commons.measure f }

/-- Sets the status of a shard. -/
def setStatus (s : Surroundings L) (identity : String) (status : ShardStatus) : Surroundings L :=
  (s.modify identity ({ · with status := status })).measure (·.setShardStatus identity status.text)

/-- Announces what happened to a shard. -/
def announce (s : Surroundings L) (identity : String) (action : ShardAction) : Surroundings L :=
  { s with commons := s.commons.announce ⟨identity, (s.handle identity).position, action⟩ }

/-- Ends a subscription to the mark. -/
def leave (s : Surroundings L) : Surroundings L :=
  { s with commons := { s.commons with tracker := s.commons.tracker.unsubscribe } }

/-- Calls the log. -/
def call {α : Type} (s : Surroundings L) (now : Moment) (f : LogCall L α) :
    Outcome α × Surroundings L :=
  let (outcome, commons) := s.commons.call now f
  (outcome, { s with commons := commons })

end Surroundings

namespace Consumer

variable {L : Type}

/-- Moves a consumer to a stage. -/
def at_ (c : Consumer) (stage : ConsumerStage) : Consumer := { c with stage := stage }

/-- The consumer will not take another step. -/
def isOver (c : Consumer) : Bool :=
  match c.stage with
  | .ended | .crashed => true
  | _ => false

/-- A consumer and its surroundings. -/
abbrev Stepped (L : Type) := Consumer × Surroundings L

/-! ## Going round -/

/-- Ends a consumer. -/
def finish (c : Consumer) (s : Surroundings L) : Stepped L :=
  (c.at_ .ended, ((s.setStatus c.identity .stopped).announce c.identity .stopped).leave)

/-- Ends a consumer without a word. -/
def crash (c : Consumer) (s : Surroundings L) : Stepped L := (c.at_ .crashed, s.leave)

/-- Compares the progress with the mark. -/
def weigh (c : Consumer) (s : Surroundings L) (committed : Position) : Stepped L :=
  let mark := s.commons.tracker.mark
  let c := { c with seenMark := mark.version }
  (c.at_ (if mark.value ≤ committed then .idle else .fetching committed mark.value), s)

/-- Goes into the next round: follows the instruction, and then looks for work. -/
def turn (c : Consumer) (s : Surroundings L) : Stepped L :=
  if s.shutdown then c.finish s
  else
    let control := (s.handle c.identity).control
    let c := { c with seenControl := control.version }
    match control.value with
    | .stop => c.finish s
    | .pause due =>
      (c.at_ (.pausing (.pause due) due),
        (s.setStatus c.identity .paused).announce c.identity .paused)
    | .run =>
      match c.position with
      | none => (c.at_ .loading, s)
      | some committed => c.weigh s committed

/-- Ends a pause that has elapsed. -/
def resume (c : Consumer) (s : Surroundings L) (elapsed : Control) : Stepped L :=
  let s := s.modify c.identity (·.resumeAfter elapsed)
  c.turn ((s.setStatus c.identity .running).announce c.identity .resumed)

/-! ## Batches -/

/-- A failure of the log, as a failure of the shard. -/
def storeFailure (category : Category) (e : Error) : Failure := .plain category e.message

/-- Goes on with a call of the log, or fails with a category. -/
def proceed {α : Type} (c : Consumer) (interrupted : Interrupted) (category : Category)
    (answer : Outcome α × Surroundings L) (k : α → Surroundings L → Stepped L) : Stepped L :=
  match answer with
  | (.ok a, s) => k a s
  | (.error (.error e), s) => (c.at_ (.failing interrupted (storeFailure category e)), s)
  | (.error (.crash _), s) => c.crash s

/-- The progress after a batch: that of its last event if the batch is full, and otherwise the
mark, since everything up to the mark was read. -/
def target (events : List EventRecord) (limit : Nat) (mark : Position) : Position :=
  match events.getLast? with
  | some last => if limit ≤ events.length then last.sequence else mark
  | none => mark

/-- Records the progress after a batch as that of the shard. -/
def commit (c : Consumer) (s : Surroundings L) (now : Moment) (batch : Batch) (saved : Position) :
    Stepped L :=
  let s := (s.modify c.identity (·.resetAttempts)).measure
    (·.recordEventsApplied c.identity batch.applied ⟨now - batch.begun⟩)
  match s.commons.measure? (·.setShardProgress c.identity saved batch.mark) with
  | (.error _, commons) => c.crash { s with commons := commons }
  | (.ok (), commons) =>
    let s := { s with commons := commons }.announce c.identity .updated
    { c with position := some saved }.turn s

/-- Goes on from the recorded progress. -/
def restart (c : Consumer) (s : Surroundings L) (saved : Position) (flow : Flow) : Stepped L :=
  let c := { c with position := some saved }
  match flow with
  | .exit => c.finish s
  | .next | .refetch => c.turn s

variable [EventLog L] {π : Type} [Projection π]

/-- Turns to the first event of a batch, or to the end of the batch. -/
def advance (c : Consumer) (p : π) (batch : Batch) (now : Moment) : Consumer :=
  match batch.events with
  | [] => c.at_ (.closing batch)
  | e :: _ => c.at_ (.applying batch (now.wake (Projection.duration p e)))

/-- Goes on after a failure has been resolved. -/
def goOn (c : Consumer) (p : π) (s : Surroundings L) (now : Moment) (interrupted : Interrupted)
    (flow : Flow) : Stepped L :=
  match interrupted with
  | .loading | .fetching => if flow = .exit then c.finish s else c.turn s
  | .saving batch cause =>
    if flow = .next then (c.at_ (.failing (.applying batch batch.committed) cause), s)
    else c.restart s batch.committed flow
  | .applying batch saved =>
    if flow = .next then
      match batch.events with
      | [] => (c.advance p batch now, s)
      | e :: rest =>
        let s := (s.measure (·.recordEventSkipped c.identity)).announce c.identity .skipped
        (c.advance p { batch with events := rest, handled := e.sequence } now, s)
    else c.restart s saved flow
  | .closing batch => c.restart s batch.committed flow

/-- Acts on the continuation of a failure. A shard that is not registered stops. -/
def act (c : Consumer) (p : π) (s : Surroundings L) (now : Moment) (interrupted : Interrupted)
    (outcome : Except Error Continuation) : Stepped L :=
  match outcome with
  | .ok .skipEvent | .ok .doNothing => c.goOn p s now interrupted .next
  | .ok (.retryLater d) =>
    if s.shutdown then c.goOn p s now interrupted .exit
    else (c.at_ (.backingOff interrupted (now.wake d)), s)
  | .ok (.pauseShard d) | .ok (.pauseAllShards d) =>
    match (s.handle c.identity).pause now d with
    | .ok h => c.goOn p (s.modify c.identity fun _ => h) now interrupted .refetch
    | .error _ => c.crash s
  | .ok .stopShard | .ok .stopAllShards | .error _ =>
    c.goOn p (s.modify c.identity (·.stop)) now interrupted .exit

/-! ## Steps -/

/-- What a consumer waits for. -/
def wait (c : Consumer) (s : Surroundings L) (now : Moment) : Wait :=
  let instructed := s.shutdown || (s.handle c.identity).control.isNew c.seenControl
  match c.stage with
  | .opening | .loading | .fetching _ _ | .saving _ _ | .closing _ | .failing _ _ => .ready
  | .idle => .for (instructed || s.commons.tracker.mark.isNew c.seenMark)
  | .pausing _ due => .either instructed now due
  | .applying _ due => .till now due
  | .reporting _ (.done _) => .ready
  | .reporting _ r => r.wait s.supervisor now
  | .backingOff _ due => .either s.shutdown now due
  | .ended | .crashed => .over

/-- Goes on after an event was applied. -/
def applied (c : Consumer) (p : π) (s : Surroundings L) (now : Moment) (batch : Batch)
    (e : EventRecord) (rest : List EventRecord) : Applied → Stepped L
  | .ok =>
    (c.advance p
      { batch with events := rest, handled := e.sequence, applied := batch.applied + 1 } now, s)
  | .failed cause =>
    if batch.handled ≤ batch.committed then
      (c.at_ (.failing (.applying batch batch.committed) cause.asApply), s)
    else (c.at_ (.saving batch cause.asApply), s)
  | .crashed => c.crash s

/-- The next step of a consumer that does not concern its projection.

A consumer that sits out a pause waits for the end of the daemon, for another instruction and for
the end of the pause, and could go on with any of those that have come. The step takes them in this
order. What the other orders lead to is not said here; it is left open by the moves of a race, in
which the end of a pause may win at any time. -/
def stepAside (c : Consumer) (p : π) (s : Surroundings L) (now : Moment) : Stepped L :=
  let name := (s.handle c.identity).name
  match c.stage with
  | .opening =>
    let (subscription, tracker) := s.commons.tracker.subscribe name
    let c := { c with seenMark := subscription.seen,
                      seenControl := (s.handle c.identity).control.version }
    c.turn ({ s with commons := { s.commons with tracker := tracker } }.setStatus c.identity
      .running)
  | .pausing elapsed due =>
    if s.shutdown then c.finish s
    else if (s.handle c.identity).control.isNew c.seenControl then c.turn s
    else if due ≤ now then c.resume s elapsed
    else (c, s)
  | .loading =>
    let load := s.call now (EventLog.lastPersistedMark name)
    c.proceed .loading .eventFetch load fun (saved, _) s =>
      let s := (s.modify c.identity ({ · with position := saved })).announce c.identity .started
      { c with position := some saved }.weigh s saved
  | .idle => c.turn s
  | .fetching committed mark =>
    let limit := max s.batchSize 1
    c.proceed .fetching .eventFetch (s.call now (EventLog.fetchEvents committed mark limit))
      fun events s =>
        (c.advance p { committed := committed, mark := mark, begun := now, events := events,
                       target := target events limit mark, handled := committed } now, s)
  | .saving batch cause =>
    c.proceed (.saving batch cause) .progressUpdate
      (s.call now (EventLog.persistMark name batch.handled)) fun _ s =>
        (c.at_ (.failing (.applying batch batch.handled) cause),
          s.modify c.identity ({ · with position := batch.handled }))
  | .closing batch =>
    if batch.target ≤ batch.committed then c.commit s now batch batch.committed
    else
      c.proceed (.closing batch) .progressUpdate
        (s.call now (EventLog.persistMark name batch.target)) fun _ s =>
          c.commit (s.modify c.identity ({ · with position := batch.target })) now batch
            batch.target
  | .failing interrupted e =>
    let (r, supervisor, m) := s.supervisor.report s.commons.metrics c.identity e
    (c.at_ (.reporting interrupted r),
      { s with supervisor := supervisor, commons := { s.commons with metrics := m } })
  | .reporting interrupted (.done outcome) => c.act p s now interrupted outcome
  | .reporting interrupted r =>
    let (r, supervisor, m) := r.step s.supervisor s.commons.metrics now
    (c.at_ (.reporting interrupted r),
      { s with supervisor := supervisor, commons := { s.commons with metrics := m } })
  | .backingOff interrupted _ =>
    c.goOn p s now interrupted (if s.shutdown then .exit else .refetch)
  | .applying _ _ | .ended | .crashed => (c, s)

/-- The next step of a consumer. -/
def step (c : Consumer) (p : π) (s : Surroundings L) (now : Moment) :
    Consumer × π × Surroundings L :=
  match c.stage with
  | .applying batch _ =>
    match batch.events with
    | [] => (c.at_ (.closing batch), p, s)
    | e :: rest =>
      let (result, p) := Projection.apply p e now
      let (c, s) := c.applied p s now batch e rest result
      (c, p, s)
  | _ =>
    let (c, s) := c.stepAside p s now
    (c, p, s)

end Consumer

end Tidemark
