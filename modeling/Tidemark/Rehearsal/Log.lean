import Tidemark.Log.Memory

/-!
# Rehearsing an event log

An event log in memory that takes its time, fails and crashes as it is told to, and keeps a trace
of the calls it has served. Whatever fails here does not reach the log in memory.
-/

namespace Tidemark.Rehearsal

/-- A round trip of detection, with its outcome. -/
inductive DetectionCall where
  /-- The highest position and the mark on record were read. -/
  | statistics (outcome : Outcome (Position × Position))
  | firstGap (start : Position) (outcome : Outcome (Option Position))
  | maxCommitted (start : Position) (outcome : Outcome (Option Position))
  | earliest (since : Timestamp) (outcome : Outcome (Option Position))
  /-- The high water mark was recorded. -/
  | persist (mark : Position) (outcome : Outcome Unit)
  deriving Repr

/-- A round trip of a shard. -/
inductive ShardCall where
  /-- Events were asked for; so many were found. -/
  | fetch (after upTo : Position) (limit : Nat) (outcome : Outcome Nat)
  /-- The progress of the shard was read. -/
  | load (outcome : Outcome Position)
  /-- The progress of the shard was recorded. -/
  | save (position : Position) (outcome : Outcome Unit)
  deriving Repr

/-- A field of a trace. -/
inductive Field where
  | word (s : String)
  | number (n : Int)
  deriving DecidableEq, Repr

/-- The order of fields: words come before numbers. -/
def Field.lt : Field → Field → Bool
  | word a, word b => a < b
  | number a, number b => a < b
  | word _, number _ => true
  | number _, word _ => false

/-- The order of lists of fields, from the first difference on. -/
def Field.listLe : List Field → List Field → Bool
  | [], _ => true
  | _ :: _, [] => false
  | a :: as, b :: bs => a.lt b || (a == b && listLe as bs)

/-- An outcome as a field: its kind if it is a failure. -/
def Field.ofOutcome {α : Type} (f : α → Field) : Outcome α → Field
  | .ok a => f a
  | .error (.error e) => word e.kind
  | .error (.crash _) => word "crash"

/-- A round trip of a shard as fields. -/
def ShardCall.fields : ShardCall → List Field
  | fetch after upTo limit outcome =>
    [.number after, .number upTo, .number limit, .ofOutcome (fun n => .number n) outcome]
  | load outcome => [.word "load", .ofOutcome .number outcome]
  | save position outcome =>
    [.word "save", .number position, .ofOutcome (fun _ => .word "ok") outcome]

/-- The order of round trips: by time, and then by their fields. -/
def ShardCall.le (a b : Timestamp × ShardCall) : Bool :=
  Field.listLe (.number a.1.nanos :: a.2.fields) (.number b.1.nanos :: b.2.fields)

/-- An event log in memory that follows a script. -/
structure FaultyLog where
  inner : MemoryLog := {}
  /-- How long a reading of statistics takes to arrive. -/
  latency : Duration := .zero
  /-- How many of the next readings of statistics crash. -/
  crashReads : Nat := 0
  /-- How many of the next fetches of events fail. -/
  failFetches : Nat := 0
  /-- How many of the next readings of progress fail. -/
  failLoads : Nat := 0
  /-- The calls of detection, latest first. -/
  detections : List (Timestamp × DetectionCall) := []
  /-- The round trips of shards, latest first, filed under the identity that the call names. A
  fetch names no shard, and is filed under the empty text. -/
  shardCalls : List (String × Timestamp × ShardCall) := []
  deriving Repr, Inhabited

namespace FaultyLog

/-- The log without its trace. -/
def clear (log : FaultyLog) : FaultyLog := { log with detections := [], shardCalls := [] }

/-- The round trips filed under an identity, in the order of time. -/
def filedUnder (log : FaultyLog) (identity : String) : List (Timestamp × ShardCall) :=
  (log.shardCalls.reverse.filter (·.1 == identity)).map Prod.snd

/-- Calls the log in memory. -/
def within {α : Type} (call : LogCall MemoryLog α) : LogCall FaultyLog α := fun log now =>
  let (outcome, inner) := call log.inner now
  (outcome, { log with inner := inner })

/-- Notes the outcome of a call in the trace. Of a crash there is nothing to note. -/
def noting {α : Type} (note : Timestamp → Outcome α → FaultyLog → FaultyLog)
    (call : LogCall FaultyLog α) : LogCall FaultyLog α := fun log now =>
  match call log now with
  | (.error (.crash cause), log) => (.error (.crash cause), log)
  | (outcome, log) => (outcome, note now outcome log)

/-- Notes a call of detection. -/
def detecting {α : Type} (describe : Outcome α → DetectionCall) :
    LogCall FaultyLog α → LogCall FaultyLog α :=
  noting fun now outcome log => { log with detections := (now, describe outcome) :: log.detections }

/-- Notes a round trip of a shard. -/
def filing {α : Type} (identity : String) (describe : Outcome α → ShardCall) :
    LogCall FaultyLog α → LogCall FaultyLog α :=
  noting fun now outcome log =>
    { log with shardCalls := (identity, now, describe outcome) :: log.shardCalls }

/-- Reads statistics, or crashes. -/
def statistics (shard : ShardName) : LogCall FaultyLog RawStatistics := fun log now =>
  if log.crashReads = 0 then
    detecting (fun outcome => .statistics (outcome.map fun r => (r.highestSequence, r.lastMark)))
      (within (EventLog.fetchStatistics shard)) log now
  else
    let fault := Fault.crash (.raised "simulated detection fault")
    (.error fault, { log with crashReads := log.crashReads - 1,
                              detections := (now, .statistics (.error fault)) :: log.detections })

/-- Reads the progress of a shard, or fails. -/
def load (shard : ShardName) : LogCall FaultyLog (Position × Option Timestamp) :=
  filing shard.identity (fun outcome => .load (outcome.map Prod.fst)) fun log now =>
    if log.failLoads = 0 then within (EventLog.lastPersistedMark shard) log now
    else
      (.error (.error (.injected "last_persisted_mark")),
        { log with failLoads := log.failLoads - 1 })

/-- Records the progress of a shard or the high water mark. -/
def persist (shard : ShardName) (p : Position) : LogCall FaultyLog (Option Timestamp) :=
  let call := within (EventLog.persistMark shard p)
  if shard.isHighWater then detecting (fun outcome => .persist p (outcome.map fun _ => ())) call
  else filing shard.identity (fun outcome => .save p (outcome.map fun _ => ())) call

/-- Fetches events, or fails. -/
def fetch (after upTo : Position) (limit : Nat) : LogCall FaultyLog (List EventRecord) :=
  filing "" (fun outcome => .fetch after upTo limit (outcome.map List.length)) fun log now =>
    if log.failFetches = 0 then within (EventLog.fetchEvents after upTo limit) log now
    else
      (.error (.error (.injected "fetch_events")), { log with failFetches := log.failFetches - 1 })

instance : EventLog FaultyLog where
  latency log := log.latency
  fetchStatistics := statistics
  highestAssigned := within EventLog.highestAssigned
  lastPersistedMark := load
  findFirstGap start := detecting (.firstGap start) (within (EventLog.findFirstGap start))
  findMaxCommitted start :=
    detecting (.maxCommitted start) (within (EventLog.findMaxCommitted start))
  findEarliestCommitted since :=
    detecting (.earliest since) (within (EventLog.findEarliestCommitted since))
  persistMark := persist
  allProgress := within EventLog.allProgress
  fetchEvents := fetch

end FaultyLog

/-! ## What the caller does to the log -/

/-- A change of the log by the caller, who is also a writer of events. -/
inductive LogAction where
  /-- Commits events without data at positions, so much later than now. -/
  | commit (positions : List Position) (eventType : String) (offset : Int)
  | reserve
  | setHighest (p : Position)
  | settle (p : Position)
  /-- Records progress in the log in memory. -/
  | persist (shard : ShardName) (p : Position)
  | failNext (n : Nat)
  | failPersists (n : Nat)
  | crashReads (n : Nat)
  | failFetches (n : Nat)
  | failLoads (n : Nat)
  | latency (d : Duration)
  deriving Repr

/-- Carries out a change of the log: a position if one was reserved, and the log afterwards. A
position that is given up is given up later than any time of the clock. -/
def FaultyLog.perform (log : FaultyLog) (now : Timestamp) :
    LogAction → Outcome (Option Position) × FaultyLog
  | .commit positions eventType offset =>
    let time : Timestamp := ⟨now.nanos + offset, false⟩
    let write (inner : MemoryLog) (p : Position) := inner.commit p ⟨eventType, [], time, false⟩
    (.ok none, { log with inner := positions.foldl write log.inner })
  | .reserve =>
    match log.inner.reserve with
    | .ok (p, inner) => (.ok (some p), { log with inner := inner })
    | .error cause => (.error (.crash cause), log)
  | .setHighest p => (.ok none, { log with inner := log.inner.setHighest p })
  | .settle p => (.ok none, { log with inner := log.inner.settle p .last })
  | .persist shard p =>
    let (outcome, inner) := EventLog.persistMark shard p log.inner now
    (outcome.map fun _ => none, { log with inner := inner })
  | .failNext n => (.ok none, { log with inner := { log.inner with failNext := n } })
  | .failPersists n => (.ok none, { log with inner := { log.inner with failPersists := n } })
  | .crashReads n => (.ok none, { log with crashReads := n })
  | .failFetches n => (.ok none, { log with failFetches := n })
  | .failLoads n => (.ok none, { log with failLoads := n })
  | .latency d => (.ok none, { log with latency := d })

end Tidemark.Rehearsal
