import Tidemark.Log.Memory

/-!
# The event log in tables

An event log kept in the three tables of a database: the events, the counter that hands out
positions, and the progress of the shards. Times are kept in milliseconds. Every change is made
completely or not at all, a position that is taken is never written again, and the rows of the
events are only ever added to.

A closed log refuses every call.
-/

namespace Tidemark

/-! ## Progress -/

/-- A row of the table of progress. -/
structure ProgressRow where
  /-- The identity of a shard, by which the row is found. -/
  name : String
  position : Position
  /-- When the row was written, in milliseconds since the beginning of 1970, if that is kept. -/
  millis : Option Int
  deriving DecidableEq, Repr, Inhabited

/-- A row of progress as it is read. -/
def ProgressRow.toProgress (row : ProgressRow) : Progress :=
  ⟨row.name, row.position, row.millis.map .ofMillis⟩

/-- A row after an update of the row of a name. -/
def ProgressRow.update (name : String) (p : Position) (millis : Int) (row : ProgressRow) :
    ProgressRow :=
  if row.name = name then { row with position := p, millis := some millis } else row

/-- The table of progress. Its key is the name, so that no two rows have the same one. -/
structure ProgressTable where
  /-- The rows in the order in which they were inserted. -/
  rows : List ProgressRow := []
  deriving Repr, Inhabited

namespace ProgressTable

/-- The position on record under a name, zero if there is none, and when it was written. -/
def find (t : ProgressTable) (name : String) : Position × Option Timestamp :=
  match t.rows.find? (·.name == name) with
  | some row => (row.position, row.millis.map .ofMillis)
  | none => (0, none)

/-- Inserts a row, or updates the one that has its name. -/
def upsert (t : ProgressTable) (name : String) (p : Position) (millis : Int) : ProgressTable :=
  if t.rows.any (·.name == name) then { t with rows := t.rows.map (.update name p millis) }
  else { t with rows := t.rows ++ [⟨name, p, some millis⟩] }

/-- The rows in the order of their names. -/
def listing (t : ProgressTable) : List Progress :=
  (t.rows.mergeSort fun a b => a.name ≤ b.name).map ProgressRow.toProgress

end ProgressTable

/-! ## The log -/

/-- A row of the table of events. -/
structure EventRow where
  sequence : Position
  eventType : String
  data : List UInt8
  /-- When the row was committed, in milliseconds since the beginning of 1970. -/
  millis : Int
  /-- The position was given up and holds no event. -/
  tombstone : Bool := false
  deriving DecidableEq, Repr, Inhabited

/-- An event log in tables. -/
structure TableLog where
  /-- The highest position that was handed out. -/
  counter : Position := 0
  /-- The events in the order in which they were committed. -/
  events : List EventRow := []
  progress : ProgressTable := {}
  closed : Bool := false
  deriving Repr, Inhabited

namespace TableLog

/-! ## Opening and closing -/

/-- Lets go of the tables. -/
def close (log : TableLog) : TableLog := { log with closed := true }

/-- Opens the tables anew. What was kept in memory is lost. -/
def reopen (log : TableLog) (inMemory : Bool) : TableLog :=
  if inMemory then {} else { log with closed := false }

/-- A call that an open log serves. -/
def call {α : Type} (serve : LogCall TableLog α) : LogCall TableLog α := fun log now =>
  if log.closed then (.error (.error (.store .poolClosed)), log) else serve log now

/-- A call that changes nothing. -/
def ask {α : Type} (answer : TableLog → Timestamp → α) : LogCall TableLog α :=
  call fun log now => (.ok (answer log now), log)

/-! ## Writing events -/

/-- A row is stored at the position. -/
def isTaken (log : TableLog) (p : Position) : Bool := log.events.any (·.sequence == p)

/-- Adds a row, unless its position is taken. -/
def insert (log : TableLog) (row : EventRow) : Outcome Unit × TableLog :=
  if log.isTaken row.sequence then (.error (.error (.store .positionTaken)), log)
  else (.ok (), { log with events := log.events ++ [row] })

/-- Reserves the next position without committing an event. -/
def reserve : LogCall TableLog Position := call fun log _ =>
  (.ok (log.counter + 1), { log with counter := log.counter + 1 })

/-- Commits an event at a position. -/
def commit (p : Position) (eventType : String) (data : List UInt8) : LogCall TableLog Unit :=
  call fun log now => log.insert ⟨p, eventType, data, now.toMillis, false⟩

/-- Reserves a position and commits an event there, both or neither. -/
def append (eventType : String) (data : List UInt8) : LogCall TableLog Position :=
  call fun log now =>
    let p := log.counter + 1
    match { log with counter := p }.insert ⟨p, eventType, data, now.toMillis, false⟩ with
    | (.ok (), log) => (.ok p, log)
    | (.error fault, _) => (.error fault, log)

/-- Gives up a position, unless it is taken. -/
def settle (p : Position) : LogCall TableLog Unit := call fun log now =>
  (.ok (), (log.insert ⟨p, tombstoneType, [], now.toMillis, true⟩).2)

/-- Moves all changes into the main file. -/
def checkpoint : LogCall TableLog Unit := ask fun _ _ => ()

/-! ## Reading -/

/-- The lowest of some positions. -/
def lowest (ps : List Position) : Option Position := ps.min?

/-- The position that follows `p` among `ps`. -/
def following (ps : List Position) (p : Position) : Option Position := lowest (ps.filter (p < ·))

/-- The lowest of the positions that are followed by another one and not by their neighbour. -/
def firstGap (ps : List Position) : Option Position :=
  lowest (ps.filter fun p => (following ps p).any (1 < · - p))

/-- The taken positions at or above a start. -/
def takenFrom (log : TableLog) (start : Position) : List Position :=
  (log.events.map (·.sequence)).filter (start ≤ ·)

/-- The events above `after` and up to `upTo` in order, at most `limit` of them. -/
def eventsIn (log : TableLog) (after upTo : Position) (limit : Nat) : List EventRecord :=
  let within := log.events.filter fun row =>
    decide (after < row.sequence) && decide (row.sequence ≤ upTo) && !row.tombstone
  ((within.mergeSort fun a b => decide (a.sequence ≤ b.sequence)).take limit).map fun row =>
    ⟨row.sequence, row.eventType, row.data, .ofMillis row.millis⟩

/-- A time as a database keeps it. -/
def inMillis (t : Timestamp) : Timestamp := .ofMillis t.toMillis

instance : EventLog TableLog where
  fetchStatistics shard := ask fun log now =>
    let (mark, updated) := log.progress.find shard.identity
    ⟨log.counter, mark, updated, inMillis now⟩
  highestAssigned := ask fun log _ => log.counter
  lastPersistedMark shard := ask fun log _ => log.progress.find shard.identity
  findFirstGap start := ask fun log _ => firstGap (log.takenFrom start)
  findMaxCommitted start := ask fun log _ => (log.takenFrom start).max?
  findEarliestCommitted since := ask fun log _ =>
    lowest ((log.events.filter fun row => decide (since.toMillis ≤ row.millis)).map (·.sequence))
  persistMark shard p := call fun log now =>
    (.ok (some (inMillis now)),
      { log with progress := log.progress.upsert shard.identity p now.toMillis })
  allProgress := ask fun log _ => log.progress.listing
  fetchEvents after upTo limit := ask fun log _ => log.eventsIn after upTo limit
  close := close

end TableLog

end Tidemark
