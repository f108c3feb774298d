import Tidemark.Config.Basic
import Tidemark.HighWater.Scan

/-!
# Detection loops

A detection loop scans again and again. How a scan compares with the one before decides how it
goes on:

* the mark moved: publish it, and scan again after the fast delay;
* everything assigned is covered: publish, and scan again after the slow delay;
* the mark stands still below the highest position: wait until writers have had their time since
  the previous scan, scan the safe zone behind that time, publish what it finds, and go on after
  the fast delay;
* the scan failed: scan again after the slow delay.

A loop ends when its agent is being stopped. A loop that was started anew after a crash first
makes a scan of its own and publishes what it finds.
-/

namespace Tidemark

/-- What the loops of an agent share. -/
structure Detection where
  config : Config.Polling
  /-- The agent is being stopped. -/
  stopping : Watched Bool := ⟨false, 0⟩
  /-- What was published last. -/
  latest : Option Statistics := none
  deriving Repr, Inhabited

/-- The delays of a loop. -/
structure Rhythm where
  fast : Duration
  slow : Duration
  /-- The time that writers are given. -/
  leadingEdge : Duration
  deriving DecidableEq, Repr, Inhabited

/-- What a loop is doing. -/
inductive Activity where
  /-- It scans. -/
  | detecting (scan : Scan)
  /-- It waits until it may scan the safe zone behind a time. -/
  | biding (due : Moment) (harbor : Timestamp)
  /-- It scans a safe zone. -/
  | rescanning (scan : Scan)
  /-- It waits before the next scan. -/
  | sleeping (due : Moment)
  deriving DecidableEq, Repr, Inhabited

/-- How far a loop has come. -/
inductive LoopStage where
  /-- It makes its first scan. -/
  | bootstrapping (scan : Scan)
  /-- It has been given the result of a first scan. -/
  | opening (previous : Statistics)
  /-- It goes round; the result of the scan published last is kept. -/
  | running (previous : Statistics) (rhythm : Rhythm) (activity : Activity)
  deriving DecidableEq, Repr, Inhabited

/-- A detection loop. -/
structure DetectionLoop where
  stage : LoopStage
  /-- The version of the stop signal that was seen last. -/
  seen : Nat
  deriving DecidableEq, Repr, Inhabited

namespace Detection

variable {L : Type}

/-- Publishes what a scan found. -/
def publish (d : Detection) (c : Commons L) (s : Statistics) :
    Except Crash Unit × Detection × Commons L :=
  let c := { c with tracker := (c.tracker.markHighWater s.currentMark).2 }
  match c.measure? (·.setHighWaterMark s.currentMark s.highestSequence) with
  | (.ok (), c) => (.ok (), { d with latest := some s }, c)
  | (.error cause, c) => (.error cause, d, c)

/-- The longest leading edge that timestamps can be moved by. -/
def longestEdge : Duration := .ofMillis 0x7FFFFFFFFFFFFFFF

/-- The delays that are configured. A leading edge that is too long counts as one second. -/
def rhythm (d : Detection) : Except Crash Rhythm := do
  let fast ← d.config.fast
  let slow ← d.config.slow
  let edge ← d.config.leadingEdge
  .ok ⟨fast, slow, if edge.inNanos ≤ longestEdge.inNanos then edge else .ofSeconds 1⟩

end Detection

namespace DetectionLoop

variable {L : Type} [EventLog L]

/-- What a loop waits for. -/
def wait (l : DetectionLoop) (d : Detection) (now : Moment) : Wait :=
  match l.stage with
  | .bootstrapping scan => scan.wait now
  | .opening _ => .ready
  | .running _ _ (.detecting scan) | .running _ _ (.rescanning scan) => scan.wait now
  | .running _ _ (.biding due _) | .running _ _ (.sleeping due) =>
    .either (d.stopping.isNew l.seen) now due

/-- A loop, or `none` if it has ended, and what it shares with others. -/
abbrev Stepped (L : Type) := Option DetectionLoop × Detection × Commons L

/-- Moves a loop on, unless its agent is being stopped. -/
def unlessStopping (l : DetectionLoop) (d : Detection) (c : Commons L) (stage : LoopStage) :
    Stepped L :=
  (if d.stopping.value then none else some { l with stage := stage }, d, c)

/-- Begins the next round. -/
def nextRound (l : DetectionLoop) (d : Detection) (c : Commons L) (now : Moment)
    (previous : Statistics) (rhythm : Rhythm) : Stepped L :=
  l.unlessStopping d c (.running previous rhythm (.detecting (.begin_ c now none)))

/-- Waits before the next round. -/
def sleep (l : DetectionLoop) (d : Detection) (c : Commons L) (now : Moment)
    (previous : Statistics) (rhythm : Rhythm) (delay : Duration) : Stepped L :=
  l.unlessStopping d c (.running previous rhythm (.sleeping (now.wake delay)))

/-- Publishes what a scan found, unless the agent is being stopped. -/
def publish (l : DetectionLoop) (d : Detection) (c : Commons L) (now : Moment)
    (found : Statistics) (rhythm : Rhythm) (delay : Duration) : Stepped L :=
  if d.stopping.value then (none, d, c)
  else
    match d.publish c found with
    | (.ok (), d, c) => l.sleep d c now found rhythm delay
    | (.error _, d, c) => (none, d, c)

/-- Goes on after a scan that failed or crashed. -/
def recover (l : DetectionLoop) (d : Detection) (c : Commons L) (now : Moment)
    (previous : Statistics) (rhythm : Rhythm) : Fault → Stepped L
  | .error e =>
    l.sleep d (c.measure (·.recordDetectionError e.kind)) now previous rhythm rhythm.slow
  | .crash _ => (none, d, c)

/-- Begins to scan the safe zone behind a time. -/
def rescan (l : DetectionLoop) (d : Detection) (c : Commons L) (now : Moment)
    (previous : Statistics) (rhythm : Rhythm) (harbor : Timestamp) : Stepped L :=
  (some { l with stage := .running previous rhythm (.rescanning (.begin_ c now (some harbor))) },
    d, c)

/-- Goes on after a scan that found the mark standing still. -/
def bide (l : DetectionLoop) (d : Detection) (c : Commons L) (now : Moment)
    (previous found : Statistics) (rhythm : Rhythm) : Stepped L :=
  match previous.timestamp.plus rhythm.leadingEdge with
  | .error _ => (none, d, c)
  | .ok harbor =>
    let c := c.measure (·.recordStaleRecheck)
    let rest := harbor.since found.timestamp
    if rest = .zero then l.rescan d c now previous rhythm harbor
    else l.unlessStopping d c (.running previous rhythm (.biding (now.wake rest) harbor))

/-- Goes on after a scan. -/
def classify (l : DetectionLoop) (d : Detection) (c : Commons L) (now : Moment)
    (previous found : Statistics) (rhythm : Rhythm) : Stepped L :=
  let status := found.status previous
  let c := c.measure (·.recordDetection status)
  match status with
  | .changed => l.publish d c now found rhythm rhythm.fast
  | .caughtUp => l.publish d c now found rhythm rhythm.slow
  | .stale => l.bide d c now previous found rhythm

/-- Takes note of the stop signal, if there was one: the loop afterwards, or `none` if it ends. -/
def heed (l : DetectionLoop) (d : Detection) : Option DetectionLoop :=
  if d.stopping.isNew l.seen then
    if d.stopping.value then none else some { l with seen := d.stopping.version }
  else some l

/-- The next step of a loop. -/
def step (l : DetectionLoop) (d : Detection) (c : Commons L) (now : Moment) : Stepped L :=
  match l.stage with
  | .bootstrapping scan =>
    match scan.step c now with
    | (.more scan, c) => (some { l with stage := .bootstrapping scan }, d, c)
    | (.ended (.ok found), c) =>
      match d.publish c found with
      | (.ok (), d, c) => (some { l with stage := .opening found }, d, c)
      | (.error _, d, c) => (none, d, c)
    | (.ended (.error (.error e)), c) => (none, d, c.measure (·.recordDetectionError e.kind))
    | (.ended (.error (.crash _)), c) => (none, d, c)
  | .opening previous =>
    match d.rhythm with
    | .ok rhythm => l.nextRound d c now previous rhythm
    | .error _ => (none, d, c)
  | .running previous rhythm (.detecting scan) =>
    match scan.step c now with
    | (.more scan, c) =>
      (some { l with stage := .running previous rhythm (.detecting scan) }, d, c)
    | (.ended (.ok found), c) => l.classify d c now previous found rhythm
    | (.ended (.error fault), c) => l.recover d c now previous rhythm fault
  | .running previous rhythm (.biding _ harbor) =>
    match l.heed d with
    | some l => l.rescan d c now previous rhythm harbor
    | none => (none, d, c)
  | .running previous rhythm (.rescanning scan) =>
    match scan.step c now with
    | (.more scan, c) =>
      (some { l with stage := .running previous rhythm (.rescanning scan) }, d, c)
    | (.ended (.ok found), c) => l.publish d c now found rhythm rhythm.fast
    | (.ended (.error fault), c) => l.recover d c now previous rhythm fault
  | .running previous rhythm (.sleeping _) =>
    match l.heed d with
    | some l => l.nextRound d c now previous rhythm
    | none => (none, d, c)

end DetectionLoop

end Tidemark
