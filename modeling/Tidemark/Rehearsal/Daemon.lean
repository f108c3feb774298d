import Tidemark.Daemon.Call
import Tidemark.Rehearsal.Log
import Tidemark.Rehearsal.Projection

/-!
# Rehearsing a daemon

A daemon with projections and an event log that follow a script, under a schedule. An observer
listens to the announcements of all shards. `Session.perform` carries out one action of the caller
and says what could be observed.
-/

namespace Tidemark.Rehearsal.Daemon

/-- What the caller is doing. -/
inductive Caller where
  | idle
  /-- Lets time pass. -/
  | sleeping (due : Moment)
  | calling (call : DaemonCall)

/-- A daemon, the caller and the observer. -/
structure World (L : Type) where
  daemon : Tidemark.Daemon L ScriptedProjection
  caller : Caller := .idle
  /-- The subscriptions of the caller. -/
  subscriptions : List (Int × Subscription) := []
  /-- How many announcements the observer has received or lost. -/
  heard : Nat := 0

/-- The tasks of a session. -/
inductive Task where
  | caller
  | daemon (task : DaemonTask)
  deriving DecidableEq, Repr

variable {L : Type} [EventLog L]

/-- What a task waits for. -/
def wait (w : World L) (now : Moment) : Task → Wait
  | .daemon task => w.daemon.wait now task
  | .caller =>
    match w.caller with
    | .idle => .over
    | .sleeping due => .till now due
    | .calling call => call.wait w.daemon now

/-- The next step of a task. -/
def step : Task → Moment → World L → World L
  | .daemon task, now, w => { w with daemon := w.daemon.step now task }
  | .caller, now, w =>
    match w.caller with
    | .idle => w
    | .sleeping _ => { w with caller := .idle }
    | .calling call =>
      let (call, d) := call.step w.daemon now
      { w with daemon := d, caller := .calling call }

/-- The tasks of a session and how they take their turns. -/
def workload : Workload (World L) Task where
  tasks w := w.daemon.tasks.map .daemon
  wait := wait
  step := step
  caller := .caller

/-! ## Actions -/

/-- What the caller does. -/
inductive Action where
  /-- Does nothing. -/
  | rest
  | advance (d : Duration)
  | project (p : ScriptedProjection)
  /-- Changes the policy. -/
  | rule (change : Policy → Policy)
  | register (filter : Filter) (chain : List Continuation)
  /-- Asks for the policy in effect. -/
  | policy
  | start
  | shutdown
  | report (shard : ShardName) (e : Failure)
  | status (shard : ShardName)
  | progress
  | health
  | subscribe (id : Int) (shard : ShardName)
  | current (id : Int)
  /-- Publishes a mark. -/
  | mark (p : Position)

/-- The result of an action. -/
inductive Result where
  | none
  | refused (fault : Fault)
  | chains (rules : List (List Continuation))
  | started (found : Statistics)
  | resolved (c : Continuation)
  | status (status : ShardStatus)
  | progress (rows : List Progress)
  | health (check : HealthCheck)
  | subscribed (identity : String)
  | position (p : Position)
  | marked (advanced : Bool)

/-- The result of a change of the daemon that may be refused. -/
def changed (w : World L) : Except Error (Tidemark.Daemon L ScriptedProjection) → Result × World L
  | .ok d => (.none, { w with daemon := d })
  | .error e => (.refused (.error e), w)

/-- Turns to a call of the daemon. -/
def calling (w : World L) (begun : DaemonCall × Tidemark.Daemon L ScriptedProjection) :
    Result × World L :=
  (.none, { w with daemon := begun.2, caller := .calling begun.1 })

/-- The result of a fallible enquiry. -/
def answered {α : Type} (f : α → Result) : Outcome α → Result
  | .ok a => f a
  | .error fault => .refused fault

/-- What the caller does at once, what it turns to then, and the result if it has one already. -/
def beginAction (now : Moment) (w : World L) (a : Action) : Result × World L :=
  let w := { w with caller := .idle }
  match a with
  | .rest => (.none, w)
  | .advance d => (.none, { w with caller := .sleeping (now.wake d) })
  | .project p => changed w (w.daemon.addProjection p)
  | .rule change => changed w (w.daemon.changePolicy change)
  | .register filter chain => changed w (w.daemon.addRule filter chain)
  | .policy => (.chains (w.daemon.currentPolicy.rules.map (·.chain)), w)
  | .start => calling w (w.daemon.start now)
  | .shutdown => calling w w.daemon.beginShutdown
  | .report shard e => calling w (w.daemon.report shard e)
  | .status shard => (answered .status ((w.daemon.shardStatus shard).mapError .error), w)
  | .progress =>
    let (outcome, d) := w.daemon.allProgress now
    (answered .progress outcome, { w with daemon := d })
  | .health => (answered .health (w.daemon.health.mapError .crash), w)
  | .subscribe id shard =>
    let (subscription, d) := w.daemon.subscribe shard
    (.subscribed shard.identity,
      { w with daemon := d,
               subscriptions := Metrics.update id (fun _ => subscription) w.subscriptions })
  | .current id =>
    match w.subscriptions.lookup id with
    | none => (.none, w)
    | some subscription =>
      let (p, subscription) := subscription.current w.daemon.commons.tracker
      (.position p,
        { w with subscriptions := Metrics.update id (fun _ => subscription) w.subscriptions })
  | .mark p =>
    let (advanced, t) := w.daemon.commons.tracker.markHighWater p
    (.marked advanced,
      { w with daemon := { w.daemon with commons := { w.daemon.commons with tracker := t } } })

/-- The result of an action, once the caller is done with it. -/
def resultOf (early : Result) : Caller → Result
  | .calling (.started outcome) => answered .started outcome
  | .calling (.reported outcome) => answered .resolved (outcome.mapError .error)
  | _ => early

/-! ## The observer -/

/-- Receives all announcements since the last time, for at most so many turns: the announcements,
how many were lost, and how many the observer has received or lost altogether. -/
def listen (b : Broadcast ShardState) : Nat → Nat → List ShardState × Nat × Nat
  | 0, heard => ([], 0, heard)
  | n + 1, heard =>
    match b.receive heard with
    | (.value s, heard) =>
      let (states, lost, heard) := listen b n heard
      (s :: states, lost, heard)
    | (.lagged k, heard) =>
      let (states, lost, heard) := listen b n heard
      (states, k + lost, heard)
    | (_, heard) => ([], 0, heard)

/-- What could be observed of a shard. -/
structure ShardNews where
  identity : String
  tries : List Try
  calls : List (Timestamp × ShardCall)
  states : List ShardState

/-- What can be observed after an action. -/
structure Observation where
  result : Result
  time : Moment
  state : DaemonState
  isRunning : Bool
  mark : Position
  detections : List (Timestamp × DetectionCall)
  /-- The round trips of shards that name no shard, in order. -/
  fetches : List (Timestamp × ShardCall)
  shards : List ShardNews
  /-- The announcements that the observer missed. -/
  lagged : Nat

/-- A session over a log of type `L`. -/
abbrev Session (L : Type) := Schedule (World L) Task

/-- A session with a new daemon over a log. -/
def Session.new (config : Config.Daemon) (log : L) (origin : Timestamp) : Session L :=
  { world := { daemon := .new config log origin } }

/-- Carries out an action, and lets all tasks come to rest. -/
def Session.run (s : Session L) (a : Action) : Result × Session L :=
  let (early, w) := beginAction s.now s.world a
  let s := (Schedule.call workload s fun _ => w).settle workload
  (resultOf early s.world.caller, s)

/-- The identity of the shard of a projection. -/
def identityOf (p : ScriptedProjection) : String := (Projection.shardName p).identity

/-- The news of a world about its shards: of every identity that a projection, the log or an
announcement names. -/
def newsOf (w : World FaultyLog) (states : List ShardState) : List ShardNews :=
  let projections := w.daemon.projections
  let log := w.daemon.commons.log
  let identities := (projections.map identityOf ++ log.shardCalls.map Prod.fst
    ++ states.map (·.shard)).eraseDups
  identities.map fun identity =>
    let tries := (projections.filter (identityOf · == identity)).flatMap fun p => p.tries.reverse
    ⟨identity, tries.mergeSort fun a b => decide (a.time ≤ b.time),
      if identity = "" then [] else log.filedUnder identity,
      states.filter (·.shard == identity)⟩

/-- Forgets what has been observed. -/
def forget (w : World FaultyLog) (heard : Nat) : World FaultyLog :=
  { w with
    heard := heard
    daemon := { w.daemon with
      projections := w.daemon.projections.map ({ · with tries := [] })
      commons := { w.daemon.commons with log := w.daemon.commons.log.clear } } }

/-- What can be observed of a session, which then forgets it. -/
def Session.observe (s : Session FaultyLog) (result : Result) : Observation × Session FaultyLog :=
  let w := s.world
  let announced := w.daemon.commons.tracker.states
  let (states, lost, heard) := listen announced (announced.sent + 2) w.heard
  (⟨result, s.now, w.daemon.state, w.daemon.isRunning, w.daemon.highWaterMark,
      w.daemon.commons.log.detections.reverse,
      (w.daemon.commons.log.filedUnder "").mergeSort ShardCall.le, newsOf w states, lost⟩,
    { s with world := forget w heard })

/-- Carries out an action and says what could be observed. -/
def Session.perform (s : Session FaultyLog) (a : Action) : Observation × Session FaultyLog :=
  let (result, s) := s.run a
  s.observe result

/-- Changes the log, and says what could be observed. -/
def Session.write (s : Session FaultyLog) (a : LogAction) :
    Outcome (Option Position) × Observation × Session FaultyLog :=
  let d := s.world.daemon
  let (outcome, log) := d.commons.log.perform (d.commons.time s.now) a
  let w := { s.world with daemon := { d with commons := { d.commons with log := log } } }
  let (o, s) := Session.perform { s with world := w } .rest
  (outcome, o, s)

end Tidemark.Rehearsal.Daemon
