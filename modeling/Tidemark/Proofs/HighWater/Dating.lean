import Tidemark.HighWater.Loop
import Tidemark.Proofs.HighWater.Zone

/-!
# The dates of statistics

The time that a detection loop gives to writers begins at the date of some statistics. A log whose
clock is right dates them no later than the time at which it is asked (`TimelyLog`), and so no
statistics that a pass works on are dated later than the last of its round trips
(`Pass.step_dated`, `Scan.step_dated`).
-/

namespace Tidemark

/-- A log that dates its statistics no later than the time at which it is asked. -/
class TimelyLog (L : Type) [EventLog L] : Prop where
  /-- The date is past. -/
  dated {shard : ShardName} {log log' : L} {now : Timestamp} {raw : RawStatistics} :
    EventLog.fetchStatistics shard log now = (.ok raw, log') → raw.timestamp ≤ now

instance : TimelyLog MemoryLog where
  dated h := by
    rw [← Except.ok.inj (MemoryLog.answer_of_ask h)]
    exact Int.le_refl _

instance : TimelyLog TableLog where
  dated {shard log log' now raw} h := by
    rw [TableLog.answer_of_ask h]
    exact Int.ediv_mul_le now.nanos (by decide)

instance : TimelyLog Rehearsal.FaultyLog where
  dated h := by
    rcases Rehearsal.FaultyLog.statistics_cases h with hinner | ⟨⟨fault, hfault⟩, -⟩
    · exact TimelyLog.dated hinner
    · cases hfault

namespace Pass

/-- The statistics that a pass works on, once it has read them. -/
def known? : Pass → Option Statistics
  | reading _ => none
  | locating _ known | scanning known | measuring known | persisting known => some known

/-- A pass works on nothing that is dated after a time. -/
def Dated (latest : Timestamp) (p : Pass) : Prop := ∀ s ∈ p.known?, s.timestamp ≤ latest

/-- Whatever a round trip leads to, nothing of it is dated after a time. -/
def Next.Dated (latest : Timestamp) : Next → Prop
  | .more p => p.Dated latest
  | .found s => s.timestamp ≤ latest

variable {latest : Timestamp}

/-- A pass works on nothing but the statistics that it knows. -/
theorem dated_of_known {p : Pass} {known : Statistics} (hp : p.known? = some known)
    (h : known.timestamp ≤ latest) : p.Dated latest := fun s hs => by
  rw [hp] at hs
  exact Option.some.inj hs ▸ h

/-- Settling a mark keeps the date. -/
theorem settle_dated {known : Statistics} (h : known.timestamp ≤ latest) :
    (settle known).Dated latest := by
  unfold settle
  split_ifs
  · exact dated_of_known rfl h
  · exact h

/-- Beginning to compute the mark keeps the date. -/
theorem compute_dated {known : Statistics} (h : known.timestamp ≤ latest) :
    (compute known).Dated latest := by
  unfold compute
  split_ifs
  · exact settle_dated h
  · exact settle_dated h
  · exact dated_of_known rfl h

variable {L : Type} [EventLog L] [TimelyLog L]

/-- A round trip that is made in time leads to nothing that is dated after it. -/
theorem step_dated {p : Pass} (h : p.Dated latest) {log log' : L} {now : Timestamp}
    (hnow : now ≤ latest) {next : Next} (hstep : p.step log now = (.ok next, log')) :
    next.Dated latest := by
  cases p with
  | reading zone =>
    obtain ⟨raw, hanswer, rfl⟩ := reply_eq_ok hstep
    have hraw : (Statistics.ofRaw raw).timestamp ≤ latest :=
      Timestamp.le_trans (TimelyLog.dated hanswer) hnow
    cases zone with
    | none => exact compute_dated hraw
    | some zone => exact dated_of_known rfl hraw
  | locating zone known =>
    obtain ⟨found, -, rfl⟩ := reply_eq_ok hstep
    have hknown : known.timestamp ≤ latest := h known rfl
    cases found with
    | none => exact compute_dated hknown
    | some p =>
      refine compute_dated ?_
      exact hknown
  | scanning known =>
    obtain ⟨found, -, rfl⟩ := reply_eq_ok hstep
    have hknown : known.timestamp ≤ latest := h known rfl
    cases found with
    | none => exact dated_of_known rfl hknown
    | some mark =>
      refine settle_dated ?_
      exact hknown
  | measuring known =>
    obtain ⟨found, -, rfl⟩ := reply_eq_ok hstep
    have hknown : known.timestamp ≤ latest := h known rfl
    cases found with
    | none =>
      refine settle_dated ?_
      unfold fallBack
      split_ifs <;> exact hknown
    | some mark =>
      refine settle_dated ?_
      exact hknown
  | persisting known =>
    obtain ⟨updated, -, rfl⟩ := reply_eq_ok hstep
    exact h known rfl

end Pass

namespace Scan

/-- Whatever a step of a scan leads to, nothing of it is dated after a time. -/
def Next.Dated (latest : Timestamp) : Next → Prop
  | .more scan => scan.pass.Dated latest
  | .ended (.ok found) => found.timestamp ≤ latest
  | .ended (.error _) => True

/-- A scan that is yet to read statistics works on nothing. -/
theorem dated_begin {L : Type} [EventLog L] (c : Commons L) (now : Moment)
    (zone : Option Timestamp) (latest : Timestamp) : (begin_ c now zone).pass.Dated latest :=
  fun _ hs => by cases hs

/-- A step of a scan that is made in time leads to nothing that is dated after it. -/
theorem step_dated {L : Type} [EventLog L] [TimelyLog L] {s : Scan} {latest : Timestamp}
    (h : s.pass.Dated latest) {c : Commons L} {now : Moment} (hnow : c.time now ≤ latest) :
    (s.step c now).1.Dated latest := by
  have hpass (next : Pass.Next) (log' : L)
      (hstep : s.pass.step c.log (c.time now) = (.ok next, log')) : next.Dated latest :=
    Pass.step_dated h hnow hstep
  unfold step Commons.call
  dsimp only
  cases hstep : s.pass.step c.log (c.time now) with
  | mk outcome log' =>
    cases outcome with
    | ok next =>
      have hnext := hpass next log' hstep
      cases next with
      | more pass => exact hnext
      | found found => exact hnext
    | error fault => cases fault <;> exact trivial

end Scan

end Tidemark
