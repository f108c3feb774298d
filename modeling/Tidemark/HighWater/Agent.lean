import Tidemark.HighWater.Loop

/-!
# The high water agent

The agent keeps a detection loop going. Starting it makes a first scan, publishes the result, and
sets off the loop and a heartbeat. With every beat the heartbeat looks whether the loop has died,
and if so replaces it by a new one. Stopping the agent ends first the heartbeat and then the loop.
-/

namespace Tidemark

/-- The heartbeat of an agent. -/
structure Heartbeat where
  period : Duration
  /-- The version of the stop signal that was seen last. -/
  seen : Nat
  /-- The moment of the next beat, once the heartbeat has begun. -/
  next : Option Moment := none
  /-- The heartbeat has ended. -/
  ended : Bool := false
  deriving DecidableEq, Repr, Inhabited

/-- The agent. -/
structure Agent where
  detection : Detection
  /-- The loops that have not ended. -/
  loops : List (Nat × DetectionLoop) := []
  /-- The loop that the agent looks after. -/
  watched : Option Nat := none
  /-- The number of loops so far. -/
  loopCount : Nat := 0
  heartbeat : Option Heartbeat := none
  /-- How often a dead loop was replaced. The count is kept without a bound; a counter of 64 bits
  would differ only once it has gone round. -/
  restarts : Nat := 0
  deriving Repr, Inhabited

/-- The tasks of an agent. -/
inductive AgentTask where
  | loop (k : Nat)
  | heartbeat
  deriving DecidableEq, Repr

namespace Agent

/-- An agent that has not been started. -/
def new (config : Config.Polling) : Agent := { detection := { config := config } }

/-- The agent was started and not stopped. -/
def isRunning (a : Agent) : Bool := a.heartbeat.isSome && !a.detection.stopping.value

/-- The loop has not ended. -/
def isAlive (a : Agent) (k : Nat) : Bool := a.loops.any (·.1 == k)

/-- The loop that the agent looks after has ended, or there is none. -/
def isDead (a : Agent) : Bool := !a.watched.any a.isAlive

/-- Adds a loop and looks after it. -/
def addLoop (a : Agent) (stage : LoopStage) (seen : Nat) : Agent :=
  { a with loops := a.loops ++ [(a.loopCount, ⟨stage, seen⟩)], watched := some a.loopCount,
           loopCount := a.loopCount + 1 }

/-- Moves a loop on, or removes it if it has ended. -/
def setLoop (a : Agent) (k : Nat) (l : Option DetectionLoop) : Agent :=
  { a with loops := a.loops.filterMap fun (j, old) =>
      if j = k then l.map fun l => (j, l) else some (j, old) }

/-! ## Tasks -/

/-- The tasks of the agent, oldest first. -/
def tasks (a : Agent) : List AgentTask :=
  a.loops.map (fun (k, _) => .loop k) ++ (if a.heartbeat.isSome then [.heartbeat] else [])

/-- What the heartbeat waits for. -/
def heartbeatWait (a : Agent) (now : Moment) : Wait :=
  match a.heartbeat with
  | none => .over
  | some h =>
    if h.ended then .over
    else
      match h.next with
      | none => .ready
      | some due => .either (a.detection.stopping.isNew h.seen) now due

variable {L : Type} [EventLog L]

/-- What a task waits for. -/
def wait (a : Agent) (now : Moment) : AgentTask → Wait
  | .heartbeat => a.heartbeatWait now
  | .loop k =>
    match a.loops.lookup k with
    | some l => l.wait a.detection now
    | none => .over

/-- A beat may come so much too late before the beats after it are put off. -/
def lateness : Nat := 5 * Duration.millisecond

/-- The beat after the one due at a moment. -/
def nextBeat (due now : Moment) (period : Duration) : Moment :=
  if due + lateness < now then now.wake period else Moment.wake due period

/-- Replaces a dead loop. -/
def revive (a : Agent) (c : Commons L) (now : Moment) (seen : Nat) : Agent × Commons L :=
  if a.isDead then
    (({ a with restarts := a.restarts + 1 }).addLoop (.bootstrapping (.begin_ c now none)) seen,
      c.measure (·.recordAgentRestart))
  else (a, c)

/-- The next step of the heartbeat. A period of zero ends it at once. -/
def stepHeartbeat (a : Agent) (c : Commons L) (now : Moment) : Agent × Commons L :=
  match a.heartbeat with
  | none => (a, c)
  | some h =>
    let stop : Agent := { a with heartbeat := some { h with ended := true } }
    match h.next with
    | none =>
      if h.period = .zero then (stop, c)
      else ({ a with heartbeat := some { h with next := some (now.wake h.period) } }, c)
    | some due =>
      if a.detection.stopping.isNew h.seen then
        if a.detection.stopping.value then (stop, c)
        else
          ({ a with heartbeat := some { h with seen := a.detection.stopping.version } }, c)
      else if a.detection.stopping.value then (stop, c)
      else
        { a with heartbeat := some { h with next := some (nextBeat due now h.period) } }.revive
          c now h.seen

/-- The next step of a task. -/
def step (a : Agent) (c : Commons L) (now : Moment) : AgentTask → Agent × Commons L
  | .heartbeat => a.stepHeartbeat c now
  | .loop k =>
    match a.loops.lookup k with
    | none => (a, c)
    | some l =>
      let (l, d, c) := l.step a.detection c now
      (({ a with detection := d }).setLoop k l, c)

end Agent

/-! ## Starting and stopping -/

/-- Where someone stands who starts or stops an agent. -/
inductive AgentCall where
  /-- The first scan is under way. -/
  | starting (scan : Scan)
  /-- The agent was started, or could not be. -/
  | started (outcome : Outcome Statistics)
  /-- Waits for the heartbeat to end. -/
  | endingHeartbeat
  /-- Waits for the loop to end. -/
  | endingLoop
  /-- The agent has stopped. -/
  | stopped

namespace Agent

variable {L : Type} [EventLog L]

/-- Begins to start the agent, which must not have been started. -/
def start (a : Agent) (c : Commons L) (now : Moment) : AgentCall × Agent :=
  if a.heartbeat.isSome then
    (.started (.error (.error (.invalidState "Idle" "Running"))), a)
  else
    (.starting (.begin_ c now none),
      { a with detection := { a.detection with stopping := a.detection.stopping.put false } })

/-- Begins to stop the agent. -/
def stop (a : Agent) : AgentCall × Agent :=
  (.endingHeartbeat,
    { a with detection := { a.detection with stopping := a.detection.stopping.put true } })

/-- Sets off the loop and the heartbeat after a first scan. -/
def launch (a : Agent) (c : Commons L) (found : Statistics) :
    Outcome Statistics × Agent × Commons L :=
  match a.detection.publish c found with
  | (.error cause, d, c) => (.error (.crash cause), { a with detection := d }, c)
  | (.ok (), d, c) =>
    let seen := d.stopping.version
    let a := ({ a with detection := d }).addLoop (.opening found) seen
    match d.config.healthCheck with
    | .error cause => (.error (.crash cause), a, c)
    | .ok period =>
      (.ok found, { a with heartbeat := some { period := period, seen := seen } },
        c.measure (·.setAgentRunning true))

end Agent

namespace AgentCall

variable {L : Type} [EventLog L]

/-- What someone waits for who starts or stops an agent. -/
def wait (call : AgentCall) (a : Agent) (now : Moment) : Wait :=
  match call with
  | .starting scan => scan.wait now
  | .endingHeartbeat => .for (a.heartbeat.all (·.ended))
  | .endingLoop => .for (!a.watched.any a.isAlive)
  | .started _ | .stopped => .over

/-- The next step of someone who starts or stops an agent. -/
def step (call : AgentCall) (a : Agent) (c : Commons L) (now : Moment) :
    AgentCall × Agent × Commons L :=
  match call with
  | .starting scan =>
    match scan.step c now with
    | (.more scan, c) => (.starting scan, a, c)
    | (.ended (.error fault), c) => (.started (.error fault), a, c)
    | (.ended (.ok found), c) =>
      let (outcome, a, c) := a.launch c found
      (.started outcome, a, c)
  | .endingHeartbeat => (.endingLoop, { a with heartbeat := none }, c)
  | .endingLoop => (.stopped, { a with watched := none }, c.measure (·.setAgentRunning false))
  | .started _ | .stopped => (call, a, c)

end AgentCall

end Tidemark
