import Tidemark.HighWater.Agent
import Tidemark.Rehearsal.Log

/-!
# Rehearsing an agent

An agent over an event log that follows a script, under a schedule. `Session.perform` carries out
one action of the caller and says what could be observed.
-/

namespace Tidemark.Rehearsal.Agent

/-- What the caller is doing. -/
inductive Caller where
  | idle
  /-- Lets time pass. -/
  | sleeping (due : Moment)
  /-- Starts or stops the agent. -/
  | calling (call : AgentCall)

/-- An agent and the caller. -/
structure World where
  agent : Tidemark.Agent
  commons : Commons FaultyLog
  caller : Caller := .idle

/-- The tasks of a session. -/
inductive Task where
  | caller
  | agent (task : AgentTask)
  deriving DecidableEq, Repr

/-- What a task waits for. -/
def wait (w : World) (now : Moment) : Task → Wait
  | .agent task => w.agent.wait now task
  | .caller =>
    match w.caller with
    | .idle => .over
    | .sleeping due => .till now due
    | .calling call => call.wait w.agent now

/-- The next step of a task. -/
def step : Task → Moment → World → World
  | .agent task, now, w =>
    let (a, c) := w.agent.step w.commons now task
    { w with agent := a, commons := c }
  | .caller, now, w =>
    match w.caller with
    | .idle => w
    | .sleeping _ => { w with caller := .idle }
    | .calling call =>
      let (call, a, c) := call.step w.agent w.commons now
      { w with agent := a, commons := c, caller := .calling call }

/-- The tasks of a session and how they take their turns. -/
def workload : Workload World Task where
  tasks w := w.agent.tasks.map .agent
  wait := wait
  step := step
  caller := .caller

/-! ## Sessions -/

/-- What the caller does. -/
inductive Action where
  /-- Does nothing. -/
  | rest
  | start
  | stop
  | advance (d : Duration)
  /-- Asks for what was published last. -/
  | latest
  /-- Publishes a mark. -/
  | mark (p : Position)
  | log (action : LogAction)
  deriving Repr

/-- The result of an action. -/
inductive Result where
  | none
  | started (outcome : Outcome Statistics)
  | latest (found : Option Statistics)
  | marked (advanced : Bool)
  | log (outcome : Outcome (Option Position))
  deriving Repr

/-- What can be observed after an action. -/
structure Observation where
  result : Result
  time : Moment
  mark : Position
  isRunning : Bool
  restarts : Nat
  /-- The calls of detection meanwhile. -/
  calls : List (Timestamp × DetectionCall)
  deriving Repr

/-- A session. -/
abbrev Session := Schedule World Task

/-- A session with a new agent. -/
def Session.new (config : Config.Polling) (origin : Timestamp) : Session :=
  { world := { agent := .new config, commons := { log := {}, origin := origin } } }

/-- What the caller does at once, what it turns to then, and the result if it has one already. -/
def beginAction (now : Moment) (w : World) : Action → Result × World
  | .rest => (.none, { w with caller := .idle })
  | .start =>
    let (call, a) := w.agent.start w.commons now
    (.none, { w with agent := a, caller := .calling call })
  | .stop =>
    let (call, a) := w.agent.stop
    (.none, { w with agent := a, caller := .calling call })
  | .advance d => (.none, { w with caller := .sleeping (now.wake d) })
  | .latest => (.latest w.agent.detection.latest, { w with caller := .idle })
  | .mark p =>
    let (advanced, t) := w.commons.tracker.markHighWater p
    (.marked advanced, { w with commons := { w.commons with tracker := t }, caller := .idle })
  | .log action =>
    let (outcome, log) := w.commons.log.perform (w.commons.time now) action
    (.log outcome, { w with commons := { w.commons with log := log }, caller := .idle })

/-- The result of an action, once the caller is done with it. -/
def resultOf (early : Result) : Caller → Result
  | .calling (.started outcome) => .started outcome
  | _ => early

/-- Carries out an action, and lets all tasks come to rest. -/
def Session.perform (s : Session) (a : Action) : Observation × Session :=
  let (early, w) := beginAction s.now s.world a
  let s := (Schedule.call workload s fun _ => w).settle workload
  let w := s.world
  (⟨resultOf early w.caller, s.now, w.commons.tracker.highWaterMark, w.agent.isRunning,
      w.agent.restarts, w.commons.log.detections.reverse⟩,
    { s with world := { w with commons := { w.commons with log := w.commons.log.clear } } })

end Tidemark.Rehearsal.Agent
