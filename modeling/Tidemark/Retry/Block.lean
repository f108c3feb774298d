import Tidemark.Bulkhead
import Tidemark.Config.Basic
import Tidemark.Metrics.Basic
import Tidemark.Schedule

/-!
# Retry blocks

A retry block works off a bounded queue of items. Its dispatcher takes one item after the other,
waits for a free slot, and hands the item to a worker of its own. A worker calls the handler until
it succeeds or the attempts are used up, and waits between the attempts; it keeps its slot
throughout.

A closed block accepts nothing and finishes what it holds. A stopped block gives up the items that
wait for a further attempt.

Each task of a block (the dispatcher, a worker, and whoever posts an item) is a value that says
where the task stands, with a function that takes its next step.
-/

namespace Tidemark

/-- What a block does with its items. A call has a beginning, and an end at a later moment; between
the two it is known by a value of type `κ`. The world that calls see and change is of type `ω`. -/
structure Handler (ι κ ω : Type) where
  /-- Begins a call for an item, and says when it ends. -/
  start : ι → Moment → ω → (κ × Moment) × ω
  /-- Ends a call. -/
  finish : κ → Moment → ω → Outcome Unit × ω

namespace Retry

/-- An item and the attempts that were spent on it. -/
structure Item (ι : Type) where
  item : ι
  attempts : Nat := 0
  deriving DecidableEq, Repr, Inhabited

/-- What became of the items of a block. The counts are kept as numbers without a bound; counters of
64 bits would differ only once one of them has gone round. -/
structure Tally where
  /-- Items for which the handler succeeded. -/
  completed : Nat := 0
  /-- Calls of the handler that failed. -/
  failedAttempts : Nat := 0
  /-- Items given up after their last attempt. -/
  exhausted : Nat := 0
  /-- Items given up because the block was stopped. -/
  abandoned : Nat := 0
  deriving DecidableEq, Repr, Inhabited

/-- Where the dispatcher stands. -/
inductive Dispatcher (ι : Type) where
  /-- It waits for an item. -/
  | receiving
  /-- It waits for a slot for a worker that is to have the item. -/
  | acquiring (item : Item ι) (worker : Nat)
  /-- The queue is closed and empty, and it waits for the workers to end. -/
  | joining
  /-- It has ended. -/
  | done
  deriving DecidableEq, Repr, Inhabited

/-- Where a worker stands. -/
inductive Worker (ι κ : Type) where
  /-- It was given an item. -/
  | starting (item : Item ι)
  /-- It waits before the next attempt. -/
  | resting (item : Item ι) (due : Moment)
  /-- It waits for the end of a call, which counts among the attempts. -/
  | calling (item : Item ι) (call : κ) (due : Moment)
  deriving DecidableEq, Repr, Inhabited

/-- A retry block. -/
structure Block (ι κ : Type) where
  name : String
  schedule : Backoff
  /-- The attempts after which an item is given up, at least one. -/
  maximumAttempts : Nat
  /-- The items that the queue holds, at least one. -/
  capacity : Nat
  /-- New items are accepted. -/
  isOpen : Bool := true
  /-- Items that wait for a further attempt are given up. -/
  stopping : Bool := false
  queue : List (Item ι) := []
  /-- Those who wait for a place in the queue. -/
  line : List Nat := []
  /-- Those for whom a place in the queue is kept. -/
  granted : List Nat := []
  nextTicket : Nat := 0
  dispatcher : Dispatcher ι := .receiving
  /-- The slots, held by workers. -/
  slots : Bulkhead Nat
  workers : List (Nat × Worker ι κ) := []
  nextWorker : Nat := 0
  tally : Tally := {}
  deriving Repr, Inhabited

namespace Block

variable {ι κ ω : Type}

/-- A block of the given name and settings. -/
def new (name : String) (config : Config.Retrying) : Except Crash (Block ι κ) := do
  let schedule ← config.schedule
  if maxPermits < config.queueCapacity then .error .tooManyPermits
  let slots ← Bulkhead.new config.maxConcurrency
  .ok { name := name, schedule := schedule, maximumAttempts := max config.maximumAttempts 1,
        capacity := max config.queueCapacity 1, slots := slots }

/-! ## Closing -/

/-- Accepts nothing from now on. -/
def close (b : Block ι κ) : Block ι κ := { b with isOpen := false }

/-- Closes the block and gives up what waits for a further attempt. -/
def stop (b : Block ι κ) : Block ι κ := { b with isOpen := false, stopping := true }

/-- Everything that the block held has been dealt with. -/
def isDrained (b : Block ι κ) : Bool :=
  match b.dispatcher with
  | .done => true
  | _ => false

/-! ## The queue -/

/-- Nothing can come into the queue any more. -/
def isSealed (b : Block ι κ) : Bool := !b.isOpen && b.line.isEmpty && b.granted.isEmpty

/-- There is a place in the queue for whoever comes. -/
def hasRoom (b : Block ι κ) : Bool :=
  b.line.isEmpty && decide (b.queue.length + b.granted.length < b.capacity)

/-- Puts an item into the queue. -/
def push (b : Block ι κ) (item : Item ι) : Block ι κ := { b with queue := b.queue ++ [item] }

/-- Keeps the place that became free in the queue for the first in the line. -/
def grant (b : Block ι κ) : Block ι κ :=
  match b.line with
  | [] => b
  | ticket :: rest => { b with line := rest, granted := b.granted ++ [ticket] }

/-! ## The dispatcher -/

/-- What the dispatcher waits for. -/
def dispatcherWait (b : Block ι κ) : Wait :=
  match b.dispatcher with
  | .receiving => .for (!b.queue.isEmpty || b.isSealed)
  | .acquiring _ k => .for (b.slots.holding.contains k)
  | .joining => .for b.workers.isEmpty
  | .done => .over

/-- The next step of the dispatcher. -/
def stepDispatcher (b : Block ι κ) : Block ι κ :=
  match b.dispatcher with
  | .receiving =>
    match b.queue with
    | item :: rest =>
      { { b with queue := rest }.grant with
        slots := b.slots.acquire b.nextWorker
        dispatcher := .acquiring item b.nextWorker
        nextWorker := b.nextWorker + 1 }
    | [] => if b.isSealed then { b with dispatcher := .joining } else b
  | .acquiring item k =>
    if k ∈ b.slots.holding then
      { b with workers := b.workers ++ [(k, .starting item)], dispatcher := .receiving }
    else b
  | .joining => if b.workers.isEmpty then { b with dispatcher := .done } else b
  | .done => b

/-! ## Attempts -/

/-- Begins an attempt for an item. -/
def begin_ (h : Handler ι κ ω) (item : Item ι) (now : Moment) (world : ω) :
    (Item ι × κ × Moment) × ω :=
  let ((call, due), world) := h.start item.item now world
  (({ item with attempts := item.attempts + 1 }, call, due), world)

/-- Counts the end of an attempt. A crash counts as no outcome. -/
def record (b : Block ι κ) (m : Metrics) : Outcome Unit → Block ι κ × Metrics
  | .ok () =>
    ({ b with tally := { b.tally with completed := b.tally.completed + 1 } },
      m.recordRetryAttempt b.name true)
  | .error (.error _) =>
    ({ b with tally := { b.tally with failedAttempts := b.tally.failedAttempts + 1 } },
      m.recordRetryAttempt b.name false)
  | .error (.crash _) => (b, m)

/-- The attempts for an item are used up. -/
def isExhausted (b : Block ι κ) (item : Item ι) : Bool := b.maximumAttempts ≤ item.attempts

/-- Gives up an item whose attempts are used up. -/
def exhaust (b : Block ι κ) (m : Metrics) : Block ι κ × Metrics :=
  ({ b with tally := { b.tally with exhausted := b.tally.exhausted + 1 } },
    m.recordRetryExhausted b.name)

/-- Gives up an item because the block was stopped. -/
def abandon (b : Block ι κ) : Block ι κ :=
  { b with tally := { b.tally with abandoned := b.tally.abandoned + 1 } }

/-! ## Workers -/

/-- Where a worker stands. -/
def worker? (b : Block ι κ) (k : Nat) : Option (Worker ι κ) := b.workers.lookup k

/-- Moves a worker on. -/
def setWorker (b : Block ι κ) (k : Nat) (worker : Worker ι κ) : Block ι κ :=
  { b with workers := b.workers.map fun (j, v) => if j = k then (j, worker) else (j, v) }

/-- Ends a worker, whose slot becomes free. -/
def endWorker (b : Block ι κ) (k : Nat) : Block ι κ :=
  { b with workers := b.workers.filter (·.1 ≠ k), slots := b.slots.release k }

/-- What a worker waits for. -/
def workerWait (b : Block ι κ) (now : Moment) (k : Nat) : Wait :=
  match b.worker? k with
  | none => .over
  | some (.starting _) => .ready
  | some (.resting _ due) => .either b.stopping now due
  | some (.calling _ _ due) => .till now due

/-- Lets a worker wait before the next attempt, unless the block was stopped. -/
def rest (b : Block ι κ) (k : Nat) (item : Item ι) (now : Moment) : Block ι κ :=
  if b.stopping then (b.abandon).endWorker k
  else b.setWorker k (.resting item (now.wake (b.schedule.delayAfter item.attempts)))

/-- Lets a worker begin an attempt. -/
def attempt (h : Handler ι κ ω) (b : Block ι κ) (k : Nat) (item : Item ι) (now : Moment)
    (world : ω) : Block ι κ × ω :=
  let ((item, call, due), world) := begin_ h item now world
  (b.setWorker k (.calling item call due), world)

/-- The next step of a worker. -/
def stepWorker (h : Handler ι κ ω) (b : Block ι κ) (m : Metrics) (k : Nat) (now : Moment)
    (world : ω) : Block ι κ × Metrics × ω :=
  match b.worker? k with
  | none => (b, m, world)
  | some (.starting item) =>
    if item.attempts = 0 then
      let (b, world) := b.attempt h k item now world
      (b, m, world)
    else (b.rest k item now, m, world)
  | some (.resting item _) =>
    if b.stopping then ((b.abandon).endWorker k, m, world)
    else
      let (b, world) := b.attempt h k item now world
      (b, m, world)
  | some (.calling item call _) =>
    let (outcome, world) := h.finish call now world
    let (b, m) := b.record m outcome
    match outcome with
    | .ok () | .error (.crash _) => (b.endWorker k, m, world)
    | .error (.error _) =>
      if b.isExhausted item then
        let (b, m) := b.exhaust m
        (b.endWorker k, m, world)
      else (b.rest k item now, m, world)

end Block

/-! ## Posting -/

/-- Where someone stands who posts an item. -/
inductive Posting (ι κ : Type) where
  /-- Wants to make the first attempt at once. -/
  | trying (item : ι)
  /-- Waits for the end of the first attempt. -/
  | calling (item : Item ι) (call : κ) (due : Moment)
  /-- Wants to put the item into the queue. -/
  | sending (item : Item ι)
  /-- Waits for a place in the queue. -/
  | waiting (item : Item ι) (ticket : Nat)
  /-- Has succeeded or failed. -/
  | done (outcome : Outcome Unit)
  deriving Repr, Inhabited

namespace Posting

variable {ι κ ω : Type}

/-- Posts an item for the workers. -/
def post (item : ι) : Posting ι κ := .sending ⟨item, 0⟩

/-- What someone who posts an item waits for. -/
def wait (p : Posting ι κ) (b : Block ι κ) (now : Moment) : Wait :=
  match p with
  | .trying _ | .sending _ => .ready
  | .calling _ _ due => .till now due
  | .waiting _ ticket => .for (b.granted.contains ticket)
  | .done _ => .over

/-- Puts an item into the queue, or joins the line. A closed block refuses it. -/
def send (b : Block ι κ) (item : Item ι) : Posting ι κ × Block ι κ :=
  if !b.isOpen then (.done (.error (.error .shutdown)), b)
  else if b.hasRoom then (.done (.ok ()), b.push item)
  else
    (.waiting item b.nextTicket,
      { b with line := b.line ++ [b.nextTicket], nextTicket := b.nextTicket + 1 })

/-- The next step of someone who posts an item. -/
def step (h : Handler ι κ ω) (p : Posting ι κ) (b : Block ι κ) (m : Metrics) (now : Moment)
    (world : ω) : Posting ι κ × Block ι κ × Metrics × ω :=
  match p with
  | .trying item =>
    if b.isOpen then
      let ((item, call, due), world) := Block.begin_ h ⟨item, 0⟩ now world
      (.calling item call due, b, m, world)
    else (.done (.error (.error .shutdown)), b, m, world)
  | .calling item call _ =>
    let (outcome, world) := h.finish call now world
    let (b, m) := b.record m outcome
    match outcome with
    | .ok () | .error (.crash _) => (.done outcome, b, m, world)
    | .error (.error _) =>
      if b.isExhausted item then
        let (b, m) := b.exhaust m
        (.done (.ok ()), b, m, world)
      else (.sending item, b, m, world)
  | .sending item =>
    let (p, b) := send b item
    (p, b, m, world)
  | .waiting item ticket =>
    if ticket ∈ b.granted then
      (.done (.ok ()), { b with granted := b.granted.filter (· ≠ ticket) }.push item, m, world)
    else (p, b, m, world)
  | .done _ => (p, b, m, world)

end Posting

end Retry

end Tidemark
