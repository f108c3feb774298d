import Tidemark.Retry.Block

/-!
# Rehearsing a retry block

A retry block whose handler follows a script: each item says how long a call for it takes, how
many of its calls fail and which one crashes. A `Session` is the block together with its tasks
under a schedule; `Session.perform` carries out one action of the caller and says what could be
observed.
-/

namespace Tidemark.Rehearsal.Retry

open Tidemark.Retry

/-- An item with the script for its calls. -/
structure Scripted where
  id : Int
  /-- The first calls fail, as many as that. -/
  fail : Nat := 0
  /-- How long a call takes. -/
  work : Duration := .zero
  /-- The call that crashes, counted from one. -/
  crashOn : Option Nat := none
  deriving DecidableEq, Repr, Inhabited

/-- How a call ended. -/
inductive Ending where
  | ok | failed | crashed
  deriving DecidableEq, Repr, Inhabited

/-- A call that has ended. -/
structure Call where
  time : Moment
  id : Int
  /-- The number of the call among those for the same item, counted from one. -/
  number : Nat
  ending : Ending
  deriving DecidableEq, Repr, Inhabited

/-- What the handler knows. -/
structure Record where
  /-- How many calls were begun for an item. -/
  begun : List (Int × Nat) := []
  /-- The calls that have ended, latest first. -/
  calls : List Call := []
  deriving Repr, Inhabited

/-- The end that the script has in store for a call. -/
def Scripted.ending (s : Scripted) (number : Nat) : Ending :=
  if s.crashOn = some number then .crashed else if number ≤ s.fail then .failed else .ok

/-- What a call answers that comes to an end. -/
def Ending.outcome (number : Nat) : Ending → Outcome Unit
  | .ok => .ok ()
  | .failed => .error (.error (.internal ("failure " ++ toString number)))
  | .crashed => .error (.crash (.raised "item panic"))

/-- The handler that follows the script. -/
def handler : Handler Scripted (Scripted × Nat) Record where
  start item now r :=
    let number := (r.begun.lookup item.id).getD 0 + 1
    (((item, number), now.wake item.work),
      { r with begun := Metrics.update item.id (fun _ => number) r.begun })
  finish := fun (item, number) now r =>
    let ending := item.ending number
    (ending.outcome number, { r with calls := ⟨now, item.id, number, ending⟩ :: r.calls })

/-- The block of a session. -/
abbrev ScriptedBlock := Block Scripted (Scripted × Nat)

/-- What the caller is doing. -/
inductive Caller where
  | idle
  /-- Lets time pass. -/
  | sleeping (due : Moment)
  /-- Posts items one after the other; the results are collected in reverse. -/
  | posting (immediate : Bool) (present : Posting Scripted (Scripted × Nat))
      (later : List Scripted) (results : List (Outcome Unit))
  /-- Has posted all items, or crashed in the middle. -/
  | posted (results : Except Crash (List (Outcome Unit)))
  /-- Waits until the block is drained. -/
  | draining

/-- The tasks of a session. -/
inductive Task where
  | caller
  | dispatcher
  | worker (k : Nat)
  /-- Waits in the background until the block is drained. -/
  | drain (k : Nat)
  deriving DecidableEq, Repr

/-- A block, its metrics and everyone who has to do with it. -/
structure World where
  block : ScriptedBlock
  metrics : Metrics := {}
  record : Record := {}
  caller : Caller := .idle
  /-- For each background drain, whether it has ended. -/
  drains : List Bool := []

/-- Begins to post the next item. -/
def nextPost (immediate : Bool) (later : List Scripted) (results : List (Outcome Unit)) : Caller :=
  match later with
  | [] => .posted (.ok results.reverse)
  | item :: rest => .posting immediate (if immediate then .trying item else .post item) rest results

/-- What a task waits for. -/
def wait (w : World) (now : Moment) : Task → Wait
  | .caller =>
    match w.caller with
    | .idle | .posted _ => .over
    | .sleeping due => .till now due
    | .posting _ (.done _) _ _ => .ready
    | .posting _ p _ _ => p.wait w.block now
    | .draining => .for w.block.isDrained
  | .dispatcher => w.block.dispatcherWait
  | .worker k => w.block.workerWait now k
  | .drain k => if w.drains[k]?.getD true then .over else .for w.block.isDrained

/-- The next step of the caller. -/
def stepCaller (now : Moment) (w : World) : World :=
  match w.caller with
  | .idle | .posted _ => w
  | .sleeping _ | .draining => { w with caller := .idle }
  | .posting _ (.done (.error (.crash cause))) _ _ => { w with caller := .posted (.error cause) }
  | .posting immediate (.done outcome) later results =>
    { w with caller := nextPost immediate later (outcome :: results) }
  | .posting immediate p later results =>
    let (p, b, m, r) := p.step handler w.block w.metrics now w.record
    { w with block := b, metrics := m, record := r, caller := .posting immediate p later results }

/-- The next step of a task. -/
def step : Task → Moment → World → World
  | .caller, now, w => stepCaller now w
  | .dispatcher, _, w => { w with block := w.block.stepDispatcher }
  | .worker k, now, w =>
    let (b, m, r) := w.block.stepWorker handler w.metrics k now w.record
    { w with block := b, metrics := m, record := r }
  | .drain k, _, w => { w with drains := w.drains.set k true }

/-- The tasks of a session and how they take their turns. -/
def workload : Workload World Task where
  tasks w := .dispatcher :: w.block.workers.map (fun (k, _) => .worker k)
    ++ (List.range w.drains.length).map .drain
  wait := wait
  step := step
  caller := .caller

/-! ## Sessions -/

/-- What the caller does. -/
inductive Action where
  /-- Posts items for the workers. -/
  | post (items : List Scripted)
  /-- Attempts items at once, and posts those that fail. -/
  | attempt (items : List Scripted)
  | advance (d : Duration)
  | drain
  /-- Drains the block in the background. -/
  | drainBehind
  | shutdown
  deriving Repr

/-- The result of an action. -/
inductive Result where
  | none
  | posted (outcomes : List (Outcome Unit))
  | crashed (cause : Crash)
  deriving Repr

/-- What can be observed after an action. -/
structure Observation where
  result : Result
  time : Moment
  /-- The calls that ended meanwhile, in order of time, item and number. -/
  calls : List Call
  /-- The background drains that have ended. -/
  drained : Nat
  tally : Tally
  deriving Repr

/-- A session. -/
abbrev Session := Schedule World Task

/-- A session with a new block. -/
def Session.new (name : String) (config : Config.Retrying) : Except Crash Session := do
  let block ← Block.new name config
  .ok { world := { block := block } }

/-- The order of calls. -/
def Call.le (a b : Call) : Bool :=
  a.time < b.time || (a.time == b.time && (a.id < b.id || (a.id == b.id && a.number ≤ b.number)))

/-- What the caller turns to for an action. -/
def beginAction (now : Moment) (w : World) : Action → World
  | .post items => { w with caller := nextPost false items [] }
  | .attempt items => { w with caller := nextPost true items [] }
  | .advance d => { w with caller := .sleeping (now.wake d) }
  | .drain => { w with block := w.block.close, caller := .draining }
  | .drainBehind =>
    { w with block := w.block.close, drains := w.drains ++ [false], caller := .idle }
  | .shutdown => { w with block := w.block.stop, caller := .draining }

/-- The result that the caller has arrived at. -/
def resultOf : Caller → Result
  | .posted (.ok outcomes) => .posted outcomes
  | .posted (.error cause) => .crashed cause
  | _ => .none

/-- Carries out an action, and lets all tasks come to rest. -/
def Session.perform (s : Session) (a : Action) : Observation × Session :=
  let s := (Schedule.call workload s fun w => beginAction s.now w a).settle workload
  let w := s.world
  (⟨resultOf w.caller, s.now, w.record.calls.mergeSort Call.le, w.drains.countP id, w.block.tally⟩,
    { s with world := { w with record := { w.record with calls := [] } } })

end Tidemark.Rehearsal.Retry
