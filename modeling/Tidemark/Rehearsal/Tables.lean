import Tidemark.Log.Table
import Tidemark.Rehearsal.Daemon

/-!
# Rehearsing a daemon over tables

A daemon with scripted projections over an event log in tables, from the first event to its end:
the events are written, the daemon is started, runs until every shard has stopped or has reached
the last position, and is shut down.
-/

namespace Tidemark.Rehearsal

/-- What is to be run. -/
structure TableScript where
  /-- The types of the events; a position without a type is given up. -/
  events : List (Option String)
  config : Config.Daemon
  rules : List (Policy → Policy)
  projections : List ScriptedProjection

/-- What came of a run. -/
structure TableReport where
  bootstrap : Statistics
  progress : List Progress
  /-- The shards before the daemon was shut down. -/
  shards : List ShardHealth
  projections : List ScriptedProjection
  /-- What the log says about progress after the daemon was shut down. -/
  afterShutdown : Outcome (List Progress)
  state : DaemonState

namespace TableScript

/-- Writes one event, or gives up one position. -/
def write (log : TableLog) (now : Timestamp) (event : Option String) : TableLog :=
  match event with
  | some eventType => (TableLog.append eventType [] log now).2
  | none =>
    match TableLog.reserve log now with
    | (.ok p, log) => (TableLog.settle p log now).2
    | (.error _, log) => log

/-- A session over tables. -/
abbrev TableSession := Daemon.Session TableLog

/-- Carries out actions of which none may be refused. -/
def prepare (s : TableSession) : List Daemon.Action → Except Fault TableSession
  | [] => .ok s
  | a :: rest =>
    match s.run a with
    | (.refused fault, _) => .error fault
    | (_, s) => prepare s rest

/-- Every shard has stopped or has reached a position. -/
def isSettled (s : TableSession) (last : Position) : Bool :=
  s.world.daemon.supervisor.all fun v => v.shards.handles.all fun h =>
    h.status == .stopped || decide (last ≤ h.position)

/-- Lets time pass until every shard has stopped or has reached a position, for at most so many
milliseconds. -/
def waitUntil (last : Position) : Nat → TableSession → TableSession
  | 0, s => s
  | n + 1, s =>
    if isSettled s last then s else waitUntil last n (s.run (.advance (.ofMillis 1))).2

/-- How many milliseconds a run is given. -/
def patience : Nat := 100000

/-- Runs a daemon from the first event to its end. -/
def run (script : TableScript) (origin : Timestamp) : Except Fault TableReport := do
  let log := script.events.foldl (fun log e => write log origin e) {}
  let s : TableSession := .new script.config log origin
  let s ← prepare s (script.rules.map .rule ++ script.projections.map .project)
  let (started, s) := s.run .start
  match started with
  | .started bootstrap =>
    let s := waitUntil log.counter patience s
    let (progress, d) := s.world.daemon.allProgress s.now
    let progress ← progress
    let health ← d.health.mapError .crash
    let s := (s.run .shutdown).2
    let (after, d) := s.world.daemon.allProgress s.now
    .ok ⟨bootstrap, progress, health.shards, d.projections, after, d.state⟩
  | .refused fault => .error fault
  | _ => .error (.error (.internal "the daemon was not started"))

end TableScript

end Tidemark.Rehearsal
