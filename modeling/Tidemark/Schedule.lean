import Tidemark.Time.Moment

/-!
# Schedules

How tasks take turns on one thread. A `Workload` says which tasks a world has, what each of them
waits for, and how each takes its next step. A schedule runs one task at a time until it has to
wait; tasks that become ready line up behind those that are ready already. One of the tasks is
the caller, whose call is being carried out: it runs when no other task is ready, and first when
its own timer went off.

Work takes no time. The clock moves only when no task is ready, straight to the next timer.

The order of turns is the concern of this module alone: what the tasks of a world guarantee holds
for every order of their steps.
-/

namespace Tidemark

/-- What a task waits for. -/
inductive Wait where
  /-- The task can take a step. -/
  | ready
  /-- The task waits for another one, or for a moment. -/
  | blocked (due : Option Moment)
  /-- The task has ended. -/
  | over
  deriving DecidableEq, Repr, Inhabited

/-- Waiting for a moment, which may have come. -/
def Wait.till (now due : Moment) : Wait := if due ≤ now then .ready else .blocked (some due)

/-- Waiting for a condition. -/
def Wait.for (condition : Bool) : Wait := if condition then .ready else .blocked none

/-- Waiting for a condition or a moment, whichever comes first. -/
def Wait.either (condition : Bool) (now due : Moment) : Wait :=
  if condition then .ready else .till now due

/-- Tasks named by `ι` in worlds of type `σ`. -/
structure Workload (σ ι : Type) where
  /-- The tasks of a world other than the caller, oldest first. -/
  tasks : σ → List ι
  /-- What a task waits for. -/
  wait : σ → Moment → ι → Wait
  /-- The next step of a task. -/
  step : ι → Moment → σ → σ
  caller : ι

/-- A world, and whose turn it is. -/
structure Schedule (σ ι : Type) where
  world : σ
  now : Moment := 0
  /-- The task whose turn it is. -/
  current : Option ι := none
  /-- The other tasks that are ready, in the order of their turns. -/
  queue : List ι := []
  /-- The timers of waiting tasks, in the order in which they were set. -/
  timers : List (ι × Moment) := []

namespace Schedule

variable {σ ι : Type} [DecidableEq ι] (w : Workload σ ι)

/-- The task needs a turn: it is ready, or it has yet to set its timer. -/
def needsTurn (s : Schedule σ ι) (i : ι) : Bool :=
  match w.wait s.world s.now i with
  | .ready => true
  | .blocked (some _) => !s.timers.any (·.1 == i)
  | .blocked none | .over => false

/-- Lines up the tasks that have come to need a turn. -/
def awaken (s : Schedule σ ι) : Schedule σ ι :=
  let fresh := (w.tasks s.world).filter fun i =>
    decide (s.current ≠ some i) && !s.queue.contains i && s.needsTurn w i
  { s with queue := s.queue ++ fresh }

/-- Sets the timer of a task, unless it is set to the same moment already. -/
def setTimer (timers : List (ι × Moment)) (i : ι) : Option Moment → List (ι × Moment)
  | none => timers.filter (·.1 ≠ i)
  | some due =>
    if timers.contains (i, due) then timers else timers.filter (·.1 ≠ i) ++ [(i, due)]

/-- Ends the turn of a task that has to wait. -/
def endTurn (s : Schedule σ ι) (i : ι) (due : Option Moment) : Schedule σ ι :=
  { s with current := none, timers := setTimer s.timers i (due.map Moment.tick) }

/-- Goes on at the present moment; `none` if no task is ready. -/
def proceed? (s : Schedule σ ι) : Option (Schedule σ ι) :=
  match s.current with
  | some i =>
    match w.wait s.world s.now i with
    | .ready => some ({ s with world := w.step i s.now s.world }.awaken w)
    | .blocked due => some (s.endTurn i due)
    | .over => some (s.endTurn i none)
  | none =>
    match s.queue with
    | i :: rest => some { s with current := some i, queue := rest }
    | [] =>
      if w.wait s.world s.now w.caller = .ready then some { s with current := some w.caller }
      else none

/-- Moves the clock to the next timer; `none` if there is none. -/
def advance? (s : Schedule σ ι) : Option (Schedule σ ι) :=
  (s.timers.map Prod.snd).min?.map fun next =>
    let due := (s.timers.filter fun t => decide (t.2 ≤ next)).map Prod.fst
    { s with
      now := max s.now next
      current := if due.contains w.caller then some w.caller else none
      queue := due.filter (· ≠ w.caller)
      timers := s.timers.filter fun t => decide (next < t.2) }

/-- The call of the caller has ended. -/
def isOver (s : Schedule σ ι) : Bool := w.wait s.world s.now w.caller == .over

/-- Runs until the call has ended, for at most so many turns. -/
def runCall : Nat → Schedule σ ι → Schedule σ ι
  | 0, s => s
  | n + 1, s =>
    if s.isOver w then s
    else
      match (s.proceed? w).orElse fun _ => s.advance? w with
      | some s => runCall n s
      | none => s

/-- Runs at the present moment until no task is ready, for at most so many turns. -/
def runIdle : Nat → Schedule σ ι → Schedule σ ι
  | 0, s => s
  | n + 1, s =>
    match s.proceed? w with
    | some s => runIdle n s
    | none => s

/-- More turns than any run takes in practice. -/
def patience : Nat := 1000000000000000

/-- Begins a call, which is a change of the world by the caller, and runs until it has ended. -/
def call (s : Schedule σ ι) (begin_ : σ → σ) : Schedule σ ι :=
  ({ s with world := begin_ s.world, current := some w.caller }.awaken w).runCall w patience

/-- Runs until every task waits. -/
def settle (s : Schedule σ ι) : Schedule σ ι := s.runIdle w patience

end Schedule

end Tidemark
