import Tidemark.Proofs.Log.Lawful

/-!
# What detection may rely on

A detection pass reads statistics, makes three sorts of searches, and records the mark. Only the
last of these changes what shards see of a log, and the statistics tell the progress on record. All
logs of this library are such logs.
-/

namespace Tidemark

open LogView

/-- Shards see the same of two logs if they see the same of a third one. -/
theorem SameView.trans {L : Type} [LogView L] {log log' log'' : L} (h : SameView log log')
    (h' : SameView log' log'') : SameView log log'' :=
  ⟨h'.kept ∘ h.kept, h'.recorded.trans h.recorded, h'.stored.trans h.stored⟩

/-- The high water mark on record, zero if there is none. -/
def LogView.highWater {L : Type} [LogView L] (log : L) : Position :=
  recorded log ShardName.highWater.identity

/-- A log whose calls for detection do what their names say. -/
class DetectedLog (L : Type) [EventLog L] extends LawfulLog L where
  /-- Reading statistics changes nothing. -/
  frame_statistics {shard : ShardName} {log log' : L} {now : Timestamp}
    {outcome : Outcome RawStatistics} :
    EventLog.fetchStatistics shard log now = (outcome, log') → SameView log log'
  /-- The statistics tell the progress on record. -/
  statistics_eq {shard : ShardName} {log log' : L} {now : Timestamp} {raw : RawStatistics} :
    EventLog.fetchStatistics shard log now = (.ok raw, log') →
      raw.lastMark = recorded log shard.identity
  /-- Looking for a gap changes nothing. -/
  frame_firstGap {start : Position} {log log' : L} {now : Timestamp}
    {outcome : Outcome (Option Position)} :
    EventLog.findFirstGap start log now = (outcome, log') → SameView log log'
  /-- Looking for the highest committed position changes nothing. -/
  frame_maxCommitted {start : Position} {log log' : L} {now : Timestamp}
    {outcome : Outcome (Option Position)} :
    EventLog.findMaxCommitted start log now = (outcome, log') → SameView log log'
  /-- Looking for the beginning of a safe zone changes nothing. -/
  frame_earliest {since : Timestamp} {log log' : L} {now : Timestamp}
    {outcome : Outcome (Option Position)} :
    EventLog.findEarliestCommitted since log now = (outcome, log') → SameView log log'
  /-- Letting go of a log changes nothing on record. -/
  frame_close (log : L) : SameView log (EventLog.close log)
  /-- Some identity has no progress on record. -/
  exists_unrecorded (log : L) : ∃ identity, recorded log identity = 0

instance : DetectedLog MemoryLog where
  frame_statistics h := (MemoryLog.sameContents_of_ask h).sameView
  statistics_eq h := by
    rw [← (MemoryLog.sameContents_of_ask h).sameView.recorded]
    exact (congrArg RawStatistics.lastMark (Except.ok.inj (MemoryLog.answer_of_ask h))).symm
  frame_firstGap h := (MemoryLog.sameContents_of_ask h).sameView
  frame_maxCommitted h := (MemoryLog.sameContents_of_ask h).sameView
  frame_earliest h := (MemoryLog.sameContents_of_ask h).sameView
  frame_close log := .refl log
  exists_unrecorded log := log.progress.exists_unrecorded

instance : DetectedLog TableLog where
  frame_statistics h := TableLog.eq_of_ask h ▸ .refl _
  statistics_eq h := congrArg RawStatistics.lastMark (TableLog.answer_of_ask h)
  frame_firstGap h := TableLog.eq_of_ask h ▸ .refl _
  frame_maxCommitted h := TableLog.eq_of_ask h ▸ .refl _
  frame_earliest h := TableLog.eq_of_ask h ▸ .refl _
  frame_close _ := ⟨id, rfl, rfl⟩
  exists_unrecorded log := log.progress.exists_unrecorded

namespace Rehearsal.FaultyLog

/-- What is noted as a call of detection is what the log in memory answered. -/
theorem inner_of_detecting {α : Type} {describe : Outcome α → DetectionCall}
    {call : LogCall MemoryLog α} {log log' : FaultyLog} {now : Timestamp} {outcome : Outcome α}
    (h : detecting describe (within call) log now = (outcome, log')) :
    call log.inner now = (outcome, log'.inner) := by
  obtain ⟨log₁, hcall, hinner⟩ := call_of_noting h fun _ _ _ => rfl
  exact hinner ▸ inner_of_within hcall

/-- Statistics that are read are read from the log in memory, unless the call crashes at once. -/
theorem statistics_cases {shard : ShardName} {log log' : FaultyLog} {now : Timestamp}
    {outcome : Outcome RawStatistics} (h : statistics shard log now = (outcome, log')) :
    EventLog.fetchStatistics shard log.inner now = (outcome, log'.inner) ∨
      (∃ fault, outcome = .error fault) ∧ log'.inner = log.inner := by
  unfold statistics at h
  split_ifs at h
  · exact .inl (inner_of_detecting h)
  · cases h
    exact .inr ⟨⟨_, rfl⟩, rfl⟩

instance : DetectedLog FaultyLog where
  frame_statistics h := by
    rcases statistics_cases h with h | ⟨-, h⟩
    · exact sameView_of_inner (DetectedLog.frame_statistics h)
    · exact sameView_of_inner (h ▸ .refl _)
  statistics_eq h := by
    rcases statistics_cases h with h | ⟨⟨_, h⟩, -⟩
    · exact DetectedLog.statistics_eq h
    · cases h
  frame_firstGap h := sameView_of_inner (DetectedLog.frame_firstGap (inner_of_detecting h))
  frame_maxCommitted h :=
    sameView_of_inner (DetectedLog.frame_maxCommitted (inner_of_detecting h))
  frame_earliest h := sameView_of_inner (DetectedLog.frame_earliest (inner_of_detecting h))
  frame_close log := .refl log
  exists_unrecorded log := log.inner.progress.exists_unrecorded

end Rehearsal.FaultyLog

end Tidemark
