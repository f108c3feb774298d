import Tidemark.Proofs.HighWater.Signal
import Tidemark.Proofs.Log.Detected

/-!
# What a detection that fails leaves in a log

Only the last call of a detection writes to the log, and only if it succeeds. The rows of progress
are those that the log lists, with the times at which they were written (`RowedLog`); a round trip
that does not end its detection with a result changes none of them (`Pass.rows_step`).
-/

namespace Tidemark

/-- A log that keeps rows of progress, which the calls of a detection leave alone unless the mark is
recorded. -/
class RowedLog (L : Type) [EventLog L] where
  /-- The rows of progress, in the order in which they are listed. -/
  rows : L → List Progress
  /-- The rows are those that are listed. -/
  listing {log log' : L} {now : Timestamp} {listed : List Progress} :
    EventLog.allProgress log now = (.ok listed, log') → listed = rows log
  /-- Reading statistics writes no row. -/
  statistics (shard : ShardName) (log : L) (now : Timestamp) :
    rows (EventLog.fetchStatistics shard log now).2 = rows log
  /-- Looking for a gap writes no row. -/
  firstGap (start : Position) (log : L) (now : Timestamp) :
    rows (EventLog.findFirstGap start log now).2 = rows log
  /-- Looking for the highest committed position writes no row. -/
  maxCommitted (start : Position) (log : L) (now : Timestamp) :
    rows (EventLog.findMaxCommitted start log now).2 = rows log
  /-- Looking for the beginning of a safe zone writes no row. -/
  earliest (since : Timestamp) (log : L) (now : Timestamp) :
    rows (EventLog.findEarliestCommitted since log now).2 = rows log
  /-- Progress that could not be recorded writes no row. -/
  persist {shard : ShardName} {p : Position} {log log' : L} {now : Timestamp} {fault : Fault} :
    EventLog.persistMark shard p log now = (.error fault, log') → rows log' = rows log

/-! ## Logs -/

/-- A call of a log in memory that changes nothing leaves the rows as they are. -/
theorem MemoryLog.progress_ask {α : Type} (operation : String)
    (answer : MemoryLog → Timestamp → Outcome α) (log : MemoryLog) (now : Timestamp) :
    (ask operation answer log now).2.progress.listing = log.progress.listing :=
  have hsame : SameContents log (ask operation answer log now).2 := sameContents_of_ask rfl
  congrArg _ hsame.progress

/-- A call of a log in tables that changes nothing leaves the rows as they are. -/
theorem TableLog.progress_ask {α : Type} (answer : TableLog → Timestamp → α) (log : TableLog)
    (now : Timestamp) : (ask answer log now).2.progress.listing = log.progress.listing := by
  have hsame : (ask answer log now).2 = log := eq_of_ask rfl
  rw [hsame]

instance : RowedLog MemoryLog where
  rows log := log.progress.listing
  listing h := by
    rw [← (MemoryLog.sameContents_of_ask h).progress]
    exact (Except.ok.inj (MemoryLog.answer_of_ask h)).symm
  statistics _ := MemoryLog.progress_ask _ _
  firstGap _ := MemoryLog.progress_ask _ _
  maxCommitted _ := MemoryLog.progress_ask _ _
  earliest _ := MemoryLog.progress_ask _ _
  persist h := congrArg _ (MemoryLog.sameContents_of_persist h).progress

instance : RowedLog TableLog where
  rows log := log.progress.listing
  listing := TableLog.answer_of_ask
  statistics _ := TableLog.progress_ask _
  firstGap _ := TableLog.progress_ask _
  maxCommitted _ := TableLog.progress_ask _
  earliest _ := TableLog.progress_ask _
  persist {shard p log log' now fault} h := by
    simp only [EventLog.persistMark, TableLog.call] at h
    split_ifs at h <;> cases h
    rfl

namespace Rehearsal.FaultyLog

/-- A call of detection that leaves the rows of the log in memory alone leaves those of the log
around it alone. -/
theorem rows_detecting {α : Type} {describe : Outcome α → DetectionCall}
    {call : LogCall MemoryLog α} (h : ∀ log now, RowedLog.rows (call log now).2 = RowedLog.rows log)
    (log : FaultyLog) (now : Timestamp) :
    RowedLog.rows (detecting describe (within call) log now).2.inner = RowedLog.rows log.inner := by
  have hcall : call log.inner now = (_, (detecting describe (within call) log now).2.inner) :=
    inner_of_detecting rfl
  rw [← h log.inner now, hcall]

instance : RowedLog FaultyLog where
  rows log := RowedLog.rows log.inner
  listing h := RowedLog.listing (inner_of_within h)
  statistics shard log now := by
    show RowedLog.rows (statistics shard log now).2.inner = RowedLog.rows log.inner
    unfold statistics
    split_ifs
    · exact rows_detecting (RowedLog.statistics shard) log now
    · rfl
  firstGap start := rows_detecting (RowedLog.firstGap start)
  maxCommitted start := rows_detecting (RowedLog.maxCommitted start)
  earliest since := rows_detecting (RowedLog.earliest since)
  persist h := RowedLog.persist (inner_of_persist h)

end Rehearsal.FaultyLog

/-! ## Detections -/

variable {L : Type} [EventLog L] [RowedLog L]

open RowedLog (rows)

/-- A round trip changes no row unless it ends its detection with a result. -/
theorem Pass.rows_step (p : Pass) (log : L) (now : Timestamp)
    (h : ∀ found, (p.step log now).1 ≠ .ok (.found found)) :
    rows (p.step log now).2 = rows log := by
  cases p with
  | reading zone => exact RowedLog.statistics _ log now
  | locating zone known => exact RowedLog.earliest zone log now
  | scanning known => exact RowedLog.firstGap _ log now
  | measuring known => exact RowedLog.maxCommitted _ log now
  | persisting known =>
    rcases hanswer : EventLog.persistMark .highWater known.currentMark log now with
      ⟨fault | updated, log'⟩
    · simp only [step, reply, hanswer]
      exact RowedLog.persist hanswer
    · refine absurd ?_ (h { known with lastUpdated := updated })
      simp only [step, reply, hanswer]
      rfl

/-- A step of a scan changes no row and publishes nothing unless the scan ends with a result. -/
theorem Scan.step_untouched (s : Scan) (c : Commons L) (now : Moment)
    (h : ∀ found, (s.step c now).1 ≠ .ended (.ok found)) :
    rows (s.step c now).2.log = rows c.log ∧ (s.step c now).2.tracker = c.tracker := by
  have hrows := s.pass.rows_step c.log (c.time now)
  refine ⟨?_, s.step_tracker c now⟩
  rcases hstep : s.pass.step c.log (c.time now) with ⟨(e | cause) | next, log'⟩
  all_goals
    rw [hstep] at hrows
    simp only [step, Commons.call, hstep] at h ⊢
  · have hsame := hrows fun _ heq => by cases heq
    split_ifs <;> exact hsame
  · exact hrows fun _ heq => by cases heq
  · cases next with
    | more pass => exact hrows fun _ heq => by cases heq
    | found found => exact absurd rfl (h found)

end Tidemark
