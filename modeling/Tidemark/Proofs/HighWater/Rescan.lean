import Tidemark.Proofs.HighWater.Pass

/-!
# What a safe zone changes

Two passes over one log, one of them in a safe zone. Unless the safe zone begins above the mark on
record, both scan from the same start. If it does then the scan in the zone either begins within the
run that the other one follows, and both end where that run ends, or above its end. Then everything
from the beginning of the zone to the new mark is committed: a safe zone lets the mark pass the
holes below its beginning and no other ones (`le_safe_mark`).

Commit times need not follow positions. `DatedLog` is a log that tells when its positions were
committed.
-/

namespace Tidemark

open LogView SearchedLog
open MemoryLog (EndsRun)

/-- A log that keeps the times of its commits. -/
class DatedLog (L : Type) [EventLog L] extends SearchedLog L where
  /-- A position was committed or given up, and when, at the precision of the log. -/
  CommittedAt : L → Position → Timestamp → Prop
  /-- A time at the precision of the log. -/
  keeping : L → Timestamp → Timestamp
  /-- Every committed position was committed at some time. -/
  mem_committed_iff {log : L} {p : Position} :
    p ∈ (written log).committed ↔ ∃ t, CommittedAt log p t
  /-- What was committed at or after a time. -/
  mem_since_iff {log : L} {zone : Timestamp} {p : Position} :
    p ∈ (written log).since zone ↔ ∃ t, CommittedAt log p t ∧ keeping log zone ≤ t

instance : DatedLog MemoryLog where
  CommittedAt log p t := ∃ e, (p, e) ∈ log.events ∧ e.timestamp = t
  keeping _ t := t
  mem_committed_iff {log p} := by
    show p ∈ log.committed ↔ _
    simp [MemoryLog.committed]
  mem_since_iff {log zone p} := by
    show p ∈ log.committedSince zone ↔ _
    simp [MemoryLog.committedSince, and_assoc]

/-- Times that are given in milliseconds are in the order of these. -/
theorem Timestamp.ofMillis_le_ofMillis {a b : Int} : ofMillis a ≤ ofMillis b ↔ a ≤ b := by
  show a * Duration.millisecond ≤ b * Duration.millisecond ↔ a ≤ b
  exact Int.mul_le_mul_iff_of_pos_right (by decide)

instance : DatedLog TableLog where
  CommittedAt log p t := ∃ row ∈ log.events, row.sequence = p ∧ Timestamp.ofMillis row.millis = t
  keeping _ t := TableLog.inMillis t
  mem_committed_iff {log p} := by
    show p ∈ log.committed ↔ _
    simp [TableLog.committed]
  mem_since_iff {log zone p} := by
    show p ∈ (log.events.filter fun row => decide (zone.toMillis ≤ row.millis)).map _ ↔ _
    simp only [List.mem_map, List.mem_filter, decide_eq_true_eq, TableLog.inMillis]
    constructor
    · rintro ⟨row, ⟨hmem, hle⟩, rfl⟩
      exact ⟨_, ⟨row, hmem, rfl, rfl⟩, Timestamp.ofMillis_le_ofMillis.mpr hle⟩
    · rintro ⟨_, ⟨row, hmem, rfl, rfl⟩, hle⟩
      exact ⟨row, ⟨hmem, Timestamp.ofMillis_le_ofMillis.mp hle⟩, rfl⟩

/-! ## Two scans -/

namespace MemoryLog.EndsRun

variable {ps : List Position} {start start' p q : Position}

/-- The first run ends at one position only. -/
theorem unique (hp : EndsRun ps start p) (hq : EndsRun ps start q) : p = q := by
  rcases lt_trichotomy p q with hlt | heq | hlt
  · exact absurd (hq.lowest p hp.mem hp.above hlt) hp.gap
  · exact heq
  · exact absurd (hp.lowest q hq.mem hq.above hlt) hq.gap

/-- A scan that begins further up, but not above the end of the first run, ends where that ends. -/
theorem of_le (h : EndsRun ps start p) (hstart : start ≤ start') (hp : start' ≤ p) :
    EndsRun ps start' p :=
  ⟨h.mem, hp, h.gap, fun r hr hsr hrp => h.lowest r hr (le_trans hstart hsr) hrp⟩

end MemoryLog.EndsRun

namespace Pass

variable {L : Type} [EventLog L] [DatedLog L]

/-- What a scan from the beginning of a safe zone jumps: the mark goes from the end of the first run
to the end of the run that the safe zone begins with. -/
structure Jumps (log : L) (zone : Timestamp) (plain safe q : Position) : Prop where
  /-- The zone begins above the mark that is found without it. -/
  above : plain < q
  within : q ≤ safe
  /-- The beginning of the zone was committed in it. -/
  dated : ∃ t, DatedLog.CommittedAt log q t ∧ DatedLog.keeping log zone ≤ t
  /-- What was committed between the mark on record and the beginning of the zone is older. -/
  older : ∀ p t, highWater log < p → p < q → DatedLog.CommittedAt log p t →
    ¬ DatedLog.keeping log zone ≤ t
  /-- No hole from the beginning of the zone on is passed. -/
  covered : ∀ p, q ≤ p → p ≤ safe → p ∈ (written log).committed
  gap : safe + 1 ∉ (written log).committed

variable {log : L} {zone : Timestamp}

/-- What was committed in a safe zone is committed. -/
theorem committed_of_since {p : Position} (h : p ∈ (written log).since zone) :
    p ∈ (written log).committed := by
  obtain ⟨t, ht, -⟩ := DatedLog.mem_since_iff.mp h
  exact DatedLog.mem_committed_iff.mpr ⟨t, ht⟩

/-- A scan in a safe zone begins at the mark on record, or at the beginning of the zone, which lies
above it. -/
theorem ScansFrom.eq_or_least {start : Position} (h : ScansFrom log (some zone) start) :
    start = highWater log ∨
      highWater log < start ∧ IsLeast {q | q ∈ (written log).since zone} start := by
  cases h with
  | @zone _ p hleast =>
    rcases le_or_gt p (highWater log) with hle | hlt
    · exact .inl (max_eq_right hle)
    · rw [max_eq_left hlt.le]
      exact .inr ⟨hlt, hleast⟩
  | quiet h => exact .inl rfl

/-- A run that begins with the safe zone and above another mark is a jump from there. -/
theorem jumps_of_endsRun {plain safe q : Position}
    (hleast : IsLeast {q | q ∈ (written log).since zone} q) (habove : plain < q)
    (hrun : EndsRun (written log).committed q safe) : Jumps log zone plain safe q where
  above := habove
  within := hrun.above
  dated := DatedLog.mem_since_iff.mp hleast.1
  older p t _ hpq ht hzone := by
    have hqp : q ≤ p := hleast.2 (DatedLog.mem_since_iff.mpr ⟨t, ht, hzone⟩)
    exact absurd hpq (not_lt.mpr hqp)
  covered _ hqp hp := hrun.covers (committed_of_since hleast.1) (le_refl q) hqp hp
  gap := hrun.gap

/-- A pass in a safe zone finds the same mark as one without it, or jumps to a higher one. -/
theorem Places.eq_or_jumps {plain safe : Position} (h : Places log none plain)
    (hzone : Places log (some zone) safe) :
    safe = plain ∨ ∃ q, Jumps log zone plain safe q := by
  -- Both passes come to their scans, or neither does.
  cases h with
  | caughtUp h =>
    cases hzone with
    | caughtUp => exact .inl rfl
    | unassigned hbehind => exact absurd h hbehind
    | run hscans => exact absurd h hscans.behind
    | nothing hscans => exact absurd h hscans.behind
  | unassigned hbehind hempty =>
    cases hzone with
    | caughtUp h => exact absurd h hbehind
    | unassigned => exact .inl rfl
    | run hscans => exact absurd hempty hscans.assigned
    | nothing hscans => exact absurd hempty hscans.assigned
  | run hscans hs hrun =>
    cases hs
    cases hzone with
    | caughtUp h => exact absurd h hscans.behind
    | unassigned _ hempty => exact absurd hempty hscans.assigned
    | run _ hs' hrun' =>
      rcases hs'.eq_or_least with rfl | ⟨hlt, hleast⟩
      · exact .inl (hrun'.unique hrun)
      · -- The zone begins within the run that the plain scan follows, or above its end.
        rcases le_or_gt _ plain with hle | habove
        · exact .inl (hrun'.unique (hrun.of_le hlt.le hle))
        · exact .inr ⟨_, jumps_of_endsRun hleast habove hrun'⟩
    | nothing _ hs' hbelow =>
      rcases hs'.eq_or_least with rfl | ⟨-, hleast⟩
      · exact absurd hrun.above (not_le.mpr (hbelow plain hrun.mem))
      · exact absurd (hbelow _ (committed_of_since hleast.1)) (lt_irrefl _)
  | nothing hscans hs hbelow =>
    cases hs
    cases hzone with
    | caughtUp h => exact .inl rfl
    | unassigned _ hempty => exact absurd hempty hscans.assigned
    | run _ hs' hrun' =>
      -- Nothing is committed from the mark on record on.
      exact absurd (le_trans hs'.le hrun'.above) (not_le.mpr (hbelow safe hrun'.mem))
    | nothing => exact .inl rfl

/-- Two passes over one log whose mark on record is not negative, of which the second one is in a
safe zone. If neither of them fails, the second one finds the same mark or a higher one. If it is
higher, the safe zone begins above the mark that the first one finds, nothing between the mark on
record and its beginning was committed in it, everything from there to the higher mark is committed,
and the position behind that mark is not. -/
theorem le_safe_mark {log₁ log₂ : L} (hkept : Kept log) (hnonneg : 0 ≤ highWater log)
    {now now' : Timestamp} {plain safe : Statistics} (hplain : detect log now = (.ok plain, log₁))
    (hsafe : detectInSafeZone zone log now' = (.ok safe, log₂)) :
    plain.currentMark ≤ safe.currentMark ∧
      (plain.currentMark < safe.currentMark →
        ∃ q, Jumps log zone plain.currentMark safe.currentMark q) := by
  have hsteady : Steady log := ⟨hkept, hnonneg⟩
  have hfirst : Places log none plain.currentMark := by
    have hrun := run_brings hsteady none now
    rw [show (reading none).run log now = _ from hplain] at hrun
    exact hrun.1
  have hsecond : Places log (some zone) safe.currentMark := by
    have hrun := run_brings hsteady (some zone) now'
    rw [show (reading (some zone)).run log now' = _ from hsafe] at hrun
    exact hrun.1
  rcases hfirst.eq_or_jumps hsecond with heq | ⟨q, hjumps⟩
  · exact ⟨heq.ge, fun hlt => absurd heq hlt.ne'⟩
  · exact ⟨(lt_of_lt_of_le hjumps.above hjumps.within).le, fun _ => ⟨q, hjumps⟩⟩

/-- Positions 1 and 2 were committed before the zone, positions 4 and 5 in it. A pass without the
zone finds 2, and a pass in the zone jumps the hole at 3 and finds 5. -/
theorem hole_jumped_in_zone :
    ∃ (log log₁ log₂ : MemoryLog) (now : Timestamp) (plain safe : Statistics),
      detect log now = (.ok plain, log₁) ∧
        detectInSafeZone ⟨10, false⟩ log now = (.ok safe, log₂) ∧
          plain.currentMark = 2 ∧ safe.currentMark = 5 ∧ ∃ q, Jumps log ⟨10, false⟩ 2 5 q := by
  let entry (nanos : Int) : Entry := ⟨"", [], ⟨nanos, false⟩, false⟩
  let log : MemoryLog :=
    { highest := 5, events := [(1, entry 0), (2, entry 0), (4, entry 30), (5, entry 30)] }
  let now : Timestamp := ⟨60, false⟩
  have hplain : detect log now = (.ok ⟨0, 5, 2, 0, now, some now⟩, (detect log now).2) :=
    Prod.ext (by decide +kernel) rfl
  have hsafe : detectInSafeZone ⟨10, false⟩ log now =
      (.ok ⟨0, 5, 5, 4, now, some now⟩, (detectInSafeZone ⟨10, false⟩ log now).2) :=
    Prod.ext (by decide +kernel) rfl
  have hkept : MemoryLog.Ascending log.events := by
    simp [log, MemoryLog.Ascending]
  have hjumps := (le_safe_mark hkept (by decide) hplain hsafe).2 (by decide)
  exact ⟨log, _, _, now, _, _, hplain, hsafe, rfl, rfl, hjumps⟩

end Pass

end Tidemark
