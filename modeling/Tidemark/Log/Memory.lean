import Tidemark.Log.Rows

/-!
# The event log in memory

An event log for tests and for runs of a single process. Its writers may commit reserved positions
in any order, fix the time of a commit, or close a position that was given up with a tombstone,
which counts as committed and is never handed out. Calls can be made to fail.

The events are kept in the order of their positions.
-/

namespace Tidemark

/-- What is stored at a committed position. -/
structure Entry where
  eventType : String
  data : List UInt8
  /-- When the position was committed. -/
  timestamp : Timestamp
  /-- The position was given up and holds no event. -/
  tombstone : Bool := false
  deriving DecidableEq, Repr, Inhabited

/-- The type of the events that stand for positions given up. -/
def tombstoneType : String := "tombstone"

/-- An event log in memory. -/
structure MemoryLog where
  /-- The highest position that was ever assigned. -/
  highest : Position := 0
  /-- The committed positions in ascending order. -/
  events : List (Position × Entry) := []
  progress : ProgressRows := {}
  /-- How many of the next calls fail. -/
  failNext : Nat := 0
  /-- How many of the next progress writes of shards fail. -/
  failPersists : Nat := 0
  /-- The calls that were served, failed ones included. -/
  calls : Nat := 0
  deriving Repr, Inhabited

namespace MemoryLog

/-! ## Writing events -/

/-- Stores an entry in ascending order, in place of what is stored at its position. -/
def put (p : Position) (e : Entry) : List (Position × Entry) → List (Position × Entry)
  | [] => [(p, e)]
  | (q, f) :: rest =>
    if p < q then (p, e) :: (q, f) :: rest
    else if p = q then (p, e) :: rest
    else (q, f) :: put p e rest

/-- Something is committed at the position. -/
def isCommitted (log : MemoryLog) (p : Position) : Bool := log.events.any (·.1 == p)

/-- Reserves the next position without committing it. -/
def reserve (log : MemoryLog) : Except Crash (Position × MemoryLog) := do
  let p ← log.highest.next
  .ok (p, { log with highest := p })

/-- Commits an entry, and reserves up to its position. -/
def commit (log : MemoryLog) (p : Position) (e : Entry) : MemoryLog :=
  { log with highest := max log.highest p, events := put p e log.events }

/-- Reserves the next position and commits an entry there. -/
def append (log : MemoryLog) (e : Entry) : Except Crash (Position × MemoryLog) := do
  let (p, log) ← log.reserve
  .ok (p, { log with events := put p e log.events })

/-- Reserves up to a position. -/
def setHighest (log : MemoryLog) (p : Position) : MemoryLog :=
  { log with highest := max log.highest p }

/-- Gives up a position, unless something is committed there. -/
def settle (log : MemoryLog) (p : Position) (now : Timestamp) : MemoryLog :=
  if log.isCommitted p then log
  else { log with events := put p ⟨tombstoneType, [], now, true⟩ log.events }

/-- The committed positions in ascending order, tombstones included. -/
def committed (log : MemoryLog) : List Position := log.events.map Prod.fst

/-! ## Reading -/

/-- The first position of an ascending list behind which a position is missing, unless it is the
last one. -/
def firstGap : List Position → Except Crash (Option Position)
  | p :: q :: rest => do
    if 1 < (← Position.distance q p) then .ok (some p) else firstGap (q :: rest)
  | _ => .ok none

/-- The committed positions at or above a start. -/
def committedFrom (log : MemoryLog) (start : Position) : List Position :=
  log.committed.dropWhile (· < start)

/-- The events above `after` and up to `upTo`, at most `limit` of them. -/
def eventsIn (log : MemoryLog) (after upTo : Position) (limit : Nat) : List EventRecord :=
  let within := (log.events.dropWhile (·.1 ≤ after)).takeWhile (·.1 ≤ upTo)
  ((within.filter (!·.2.tombstone)).take limit).map fun (p, e) =>
    ⟨p, e.eventType, e.data, e.timestamp⟩

/-! ## Calls -/

/-- Counts a call, and fails it if that was asked for. -/
def call {α : Type} (operation : String) (serve : LogCall MemoryLog α) : LogCall MemoryLog α :=
  fun log now =>
    let log := { log with calls := log.calls + 1 }
    if log.failNext = 0 then serve log now
    else (.error (.error (.injected operation)), { log with failNext := log.failNext - 1 })

/-- A call that changes nothing. -/
def ask {α : Type} (operation : String) (answer : MemoryLog → Timestamp → Outcome α) :
    LogCall MemoryLog α :=
  call operation fun log now => (answer log now, log)

/-- Records the progress of a shard. The writes of shards fail if that was asked for, those of the
high water mark do not. -/
def persist (shard : ShardName) (p : Position) : LogCall MemoryLog (Option Timestamp) :=
  call "persist_mark" fun log now =>
    if shard.isHighWater ∨ log.failPersists = 0 then
      (.ok (some now), { log with progress := log.progress.record ⟨shard.identity, p, some now⟩ })
    else
      (.error (.error (.injected "persist_mark")),
        { log with failPersists := log.failPersists - 1 })

instance : EventLog MemoryLog where
  fetchStatistics shard := ask "fetch_statistics" fun log now =>
    let (mark, updated) := log.progress.find shard.identity
    .ok ⟨log.highest, mark, updated, now⟩
  highestAssigned := ask "highest_assigned_position" fun log _ => .ok log.highest
  lastPersistedMark shard := ask "last_persisted_mark" fun log _ =>
    .ok (log.progress.find shard.identity)
  findFirstGap start := ask "find_first_gap" fun log _ =>
    (firstGap (log.committedFrom start)).mapError .crash
  findMaxCommitted start := ask "find_max_committed" fun log _ =>
    .ok (log.committedFrom start).getLast?
  findEarliestCommitted since := ask "find_earliest_committed" fun log _ =>
    .ok ((log.events.find? fun (_, e) => decide (since ≤ e.timestamp)).map Prod.fst)
  persistMark := persist
  allProgress := ask "all_progress" fun log _ => .ok log.progress.listing
  fetchEvents after upTo limit := ask "fetch_events" fun log _ =>
    .ok (log.eventsIn after upTo limit)

end MemoryLog

end Tidemark
