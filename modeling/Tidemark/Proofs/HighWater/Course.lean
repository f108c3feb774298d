import Mathlib.Data.Nat.Count
import Tidemark.Proofs.HighWater.Single

/-!
# Courses of an agent

An agent can be started and stopped again and again. Meanwhile its loops and its heartbeat take
their steps, loops die and are replaced, and others write to the log. An `AgentCourse` is any
endless sequence of such moves. Nothing is said about when a task takes its steps, so that every
schedule is covered; only whoever stops the agent waits for the tasks to end.

What a beat of the heartbeat can do to an agent is said once (`Agent.Beaten`).
-/

namespace Tidemark

variable {L : Type} [EventLog L]

/-! ## Moves -/

/-- A beat goes on for which the heartbeat has looked at the stop signal before, whatever the signal
says by now. -/
def Agent.lateBeat (a : Agent) (c : Commons L) (now : Moment) : Agent × Commons L :=
  match a.heartbeat with
  | some ⟨period, seen, some due, false⟩ =>
    { a with heartbeat := some ⟨period, seen, some (nextBeat due now period), false⟩ }.revive c now
      seen
  | _ => (a, c)

/-- Whoever starts or stops the agent is done with that. -/
def AgentCall.isOver : AgentCall → Bool
  | .started _ | .stopped => true
  | _ => false

/-- The agent was stopped. -/
def AgentCall.hasStopped : AgentCall → Bool
  | .stopped => true
  | _ => false

/-- The first scan of the agent is under way. -/
def AgentCall.isStarting : AgentCall → Bool
  | .starting _ => true
  | _ => false

/-- An agent, what it shares with others, and whoever starts and stops it. -/
structure AgentState (L : Type) where
  agent : Agent
  commons : Commons L
  /-- The last call. An agent that was never started counts as stopped. -/
  call : AgentCall := .stopped

/-- A move of an agent. -/
inductive AgentMove (L : Type) where
  /-- A task takes a step. -/
  | task (now : Moment) (task : AgentTask)
  /-- The heartbeat goes on with a beat for which it has looked at the stop signal before. -/
  | late (now : Moment)
  /-- Someone begins to start the agent. -/
  | start (now : Moment)
  /-- Someone begins to stop the agent. -/
  | stop
  /-- Whoever starts or stops the agent takes a step. -/
  | call (now : Moment)
  /-- Others change what they share with the agent. -/
  | elsewhere (f : Commons L → Commons L)

namespace AgentMove

/-- The agent is started. -/
def isStart : AgentMove L → Bool
  | .start _ => true
  | _ => false

/-- The agent is stopped. -/
def isStop : AgentMove L → Bool
  | .stop => true
  | _ => false

/-- The move is one of the agent or of whoever starts or stops it. -/
def isOwn : AgentMove L → Bool
  | .elsewhere _ => false
  | _ => true

/-- The move is one of a task. -/
def isTask : AgentMove L → Bool
  | .task _ _ | .late _ => true
  | _ => false

/-- The move is one of the heartbeat. -/
def isBeat : AgentMove L → Bool
  | .task _ .heartbeat | .late _ => true
  | _ => false

end AgentMove

namespace AgentState

/-- The state after a move. Nobody starts or stops the agent before the last call is over, and a
call takes a step only when it has not to wait. -/
def perform (s : AgentState L) : AgentMove L → AgentState L
  | .task now task =>
    let (a, c) := s.agent.step s.commons now task
    { s with agent := a, commons := c }
  | .late now =>
    let (a, c) := s.agent.lateBeat s.commons now
    { s with agent := a, commons := c }
  | .start now =>
    if s.call.isOver then
      let (call, a) := s.agent.start s.commons now
      { s with agent := a, call := call }
    else s
  | .stop =>
    if s.call.isOver then
      let (call, a) := s.agent.stop
      { s with agent := a, call := call }
    else s
  | .call now =>
    if s.call.wait s.agent now = .ready then
      let (call, a, c) := s.call.step s.agent s.commons now
      ⟨a, c, call⟩
    else s
  | .elsewhere f => { s with commons := f s.commons }

/-- How many loops are running. A first scan on behalf of whoever starts the agent counts. -/
def running (s : AgentState L) : Nat :=
  s.agent.loops.length + if s.call.isStarting then 1 else 0

end AgentState

/-- An agent with these settings, never started, is started, stopped and left to itself. -/
structure AgentCourse (L : Type) [EventLog L] where
  config : Config.Polling
  commons : Commons L
  move : ℕ → AgentMove L

namespace AgentCourse

/-- The state before a move. -/
def state (x : AgentCourse L) : ℕ → AgentState L
  | 0 => { agent := .new x.config, commons := x.commons }
  | n + 1 => (x.state n).perform (x.move n)

/-- The course that begins with some moves. -/
def ofMoves (config : Config.Polling) (c : Commons L) (moves : List (AgentMove L)) :
    AgentCourse L :=
  ⟨config, c, fun n => moves.getD n (.elsewhere id)⟩

end AgentCourse

/-! ## Beats -/

namespace Agent

/-- What a beat of the heartbeat can do: nothing, or note something about itself, or also replace
the loop that the agent looks after, if that has died. -/
inductive Beaten (a : Agent) (c : Commons L) : Agent × Commons L → Prop where
  | nothing : Beaten a c (a, c)
  | noted (h : a.heartbeat.isSome) (beat : Heartbeat) :
    Beaten a c ({ a with heartbeat := some beat }, c)
  | replaced (h : a.heartbeat.isSome) (hdead : a.isDead = true) (beat : Heartbeat) (scan : Scan)
    (seen : Nat) (f : Metrics → Metrics) :
    Beaten a c (({ a with heartbeat := some beat, restarts := a.restarts + 1 }).addLoop
      (.bootstrapping scan) seen, c.measure f)

variable (a : Agent) (c : Commons L) (now : Moment)

/-- A dead loop is replaced with a beat. -/
theorem beaten_revive (h : a.heartbeat.isSome) (beat : Heartbeat) (seen : Nat) :
    Beaten a c (({ a with heartbeat := some beat }).revive c now seen) := by
  unfold revive
  split_ifs with hdead
  · exact .replaced h hdead beat _ seen _
  · exact .noted h beat

/-- What a step of the heartbeat does. -/
theorem beaten_stepHeartbeat : Beaten a c (a.stepHeartbeat c now) := by
  unfold stepHeartbeat
  split
  · exact .nothing
  · next beat hbeat =>
    have hsome : a.heartbeat.isSome := by simp [hbeat]
    dsimp only
    split
    · split_ifs
      · exact .noted hsome _
      · exact .noted hsome _
    · split_ifs
      · exact .noted hsome _
      · exact .noted hsome _
      · exact .noted hsome _
      · exact beaten_revive a c now hsome _ beat.seen

/-- What a beat that comes late does. -/
theorem beaten_lateBeat : Beaten a c (a.lateBeat c now) := by
  unfold lateBeat
  split
  · next hbeat => exact beaten_revive a c now (by simp [hbeat]) _ _
  · exact .nothing

end Agent

end Tidemark
