import Tidemark.HighWater.Statistics
import Tidemark.Log.Basic

/-!
# Detection passes

A detection pass computes the high water mark from a log and records it there. It is a chain of
round trips, between which other tasks may write to the log:

1. read the statistics;
2. in a safe zone only: look for the first position committed at or after the time of the zone;
3. look for the first gap at or above the start of the scan;
4. if there is none, look for the highest committed position there;
5. if the mark moved, record it.

`Pass.step` carries out one round trip, and `Pass.run` a whole pass without interruption. A pass
retries nothing: it ends with the first failure.
-/

namespace Tidemark

/-- Where a detection pass stands: its next round trip and what it knows. -/
inductive Pass where
  /-- Read the statistics. A time begins the safe zone, if there is one. -/
  | reading (zone : Option Timestamp)
  /-- Look for the beginning of the safe zone. -/
  | locating (zone : Timestamp) (known : Statistics)
  /-- Look for the first gap. -/
  | scanning (known : Statistics)
  /-- Look for the highest committed position. -/
  | measuring (known : Statistics)
  /-- Record the mark. -/
  | persisting (known : Statistics)
  deriving DecidableEq, Repr, Inhabited

/-- What a round trip leads to. -/
inductive Pass.Next where
  /-- A further round trip. -/
  | more (pass : Pass)
  /-- The end of the pass. -/
  | found (statistics : Statistics)
  deriving DecidableEq, Repr, Inhabited

/-- The statistics of a shard as they are before a pass computes a mark. -/
def Statistics.ofRaw (raw : RawStatistics) : Statistics :=
  ⟨raw.lastMark, raw.highestSequence, 0, raw.lastMark, raw.timestamp, raw.lastUpdated⟩

namespace Pass

/-- How many round trips a pass still takes at most. -/
def rank : Pass → Nat
  | reading _ => 4
  | locating _ _ => 3
  | scanning _ => 2
  | measuring _ => 1
  | persisting _ => 0

/-- The pass has begun to compute a mark. -/
def isComputing : Pass → Bool
  | reading _ | locating _ _ => false
  | scanning _ | measuring _ | persisting _ => true

/-- Ends a pass with its mark, which is recorded if it moved. -/
def settle (known : Statistics) : Next :=
  if known.hasChanged then .more (.persisting known) else .found known

/-- Begins to compute the mark. A log in which everything is on record, and one in which nothing
was assigned, need no scan. -/
def compute (known : Statistics) : Next :=
  if known.lastMark = known.highestSequence then
    settle { known with currentMark := known.lastMark }
  else if known.highestSequence = 0 then settle { known with currentMark := 0, lastMark := 0 }
  else .more (.scanning known)

/-- The start of a scan whose safe zone begins at a position. A commit that came late does not
pull it below the mark on record. -/
def enterZone (known : Statistics) : Option Position → Statistics
  | some p => { known with safeStartMark := max p known.lastMark }
  | none => known

/-- The mark where the scan found none: the one on record. -/
def fallBack (known : Statistics) : Statistics :=
  if known.currentMark = 0 ∧ 0 < known.lastMark then { known with currentMark := known.lastMark }
  else known

/-- Goes on with the answer of a round trip. -/
def reply {L α β : Type} (answer : Outcome α × L) (k : α → β) : Outcome β × L :=
  (answer.1.map k, answer.2)

/-- An answered round trip was answered by the log. -/
theorem reply_eq_ok {L α β : Type} {answer : Outcome α × L} {k : α → β} {b : β} {log : L}
    (h : reply answer k = (.ok b, log)) : ∃ a, answer = (.ok a, log) ∧ k a = b := by
  obtain ⟨outcome, log'⟩ := answer
  cases outcome with
  | error fault => simp [reply, Except.map] at h
  | ok a =>
    simp only [reply, Except.map, Prod.mk.injEq, Except.ok.injEq] at h
    exact ⟨a, by simp [h.2], h.1⟩

variable {L : Type} [EventLog L]

/-- Carries out the next round trip. -/
def step : Pass → LogCall L Next
  | reading zone, log, now =>
    reply (EventLog.fetchStatistics .highWater log now) fun raw =>
      match zone with
      | some t => .more (.locating t (.ofRaw raw))
      | none => compute (.ofRaw raw)
  | locating zone known, log, now =>
    reply (EventLog.findEarliestCommitted zone log now) fun p => compute (enterZone known p)
  | scanning known, log, now =>
    reply (EventLog.findFirstGap known.safeStartMark log now) fun
      | some mark => settle { known with currentMark := mark }
      | none => .more (.measuring known)
  | measuring known, log, now =>
    reply (EventLog.findMaxCommitted known.safeStartMark log now) fun
      | some mark => settle { known with currentMark := mark }
      | none => settle (fallBack known)
  | persisting known, log, now =>
    reply (EventLog.persistMark .highWater known.currentMark log now) fun updated =>
      .found { known with lastUpdated := updated }

/-- Settling leaves at most the round trip that records the mark. -/
theorem rank_of_settle {known : Statistics} {p : Pass} (h : settle known = .more p) :
    p.rank = 0 := by
  unfold settle at h
  split at h
  · cases h; rfl
  · cases h

/-- Computing leaves at most the round trips from the scan on. -/
theorem rank_of_compute {known : Statistics} {p : Pass} (h : compute known = .more p) :
    p.rank ≤ 2 := by
  unfold compute at h
  split at h
  · simp [rank_of_settle h]
  · split at h
    · simp [rank_of_settle h]
    · cases h; simp [rank]

/-- Every round trip brings the pass closer to its end. -/
theorem rank_lt_of_step {p q : Pass} {log log' : L} {now : Timestamp}
    (h : step p log now = (.ok (.more q), log')) : q.rank < p.rank := by
  cases p with
  | reading zone =>
    obtain ⟨raw, -, h⟩ := reply_eq_ok h
    cases zone with
    | some t => cases h; simp [rank]
    | none => exact Nat.lt_of_le_of_lt (rank_of_compute h) (by simp [rank])
  | locating zone known =>
    obtain ⟨found, -, h⟩ := reply_eq_ok h
    exact Nat.lt_of_le_of_lt (rank_of_compute h) (by simp [rank])
  | scanning known =>
    obtain ⟨found, -, h⟩ := reply_eq_ok h
    cases found with
    | some mark => rw [rank_of_settle h]; simp [rank]
    | none => cases h; simp [rank]
  | measuring known =>
    obtain ⟨found, -, h⟩ := reply_eq_ok h
    cases found with
    | some mark => rw [rank_of_settle h]; simp [rank]
    | none => rw [rank_of_settle h]; simp [rank]
  | persisting known =>
    obtain ⟨updated, -, h⟩ := reply_eq_ok h
    cases h

/-- Carries out a pass without interruption. -/
def run (p : Pass) (log : L) (now : Timestamp) : Outcome Statistics × L :=
  match _h : step p log now with
  | (.ok (.more q), log) => run q log now
  | (.ok (.found s), log) => (.ok s, log)
  | (.error fault, log) => (.error fault, log)
termination_by p.rank
decreasing_by exact rank_lt_of_step _h

end Pass

/-- Computes the mark, scanning from the mark on record. -/
def detect {L : Type} [EventLog L] : LogCall L Statistics := (Pass.reading none).run

/-- Computes the mark, scanning from the first position committed at or after a time, if there is
one. -/
def detectInSafeZone {L : Type} [EventLog L] (zone : Timestamp) : LogCall L Statistics :=
  (Pass.reading (some zone)).run

/-- The first committed position at or above a start behind which a position is missing, and the
highest committed position if none is. -/
def findGap {L : Type} [EventLog L] (start : Position) : LogCall L (Option Position) :=
  fun log now =>
    match EventLog.findFirstGap start log now with
    | (.ok none, log) => EventLog.findMaxCommitted start log now
    | answer => answer

/-- The statistics of a shard as they are before a pass. -/
def loadStatistics {L : Type} [EventLog L] (shard : ShardName) : LogCall L Statistics :=
  fun log now => Pass.reply (EventLog.fetchStatistics shard log now) .ofRaw

end Tidemark
