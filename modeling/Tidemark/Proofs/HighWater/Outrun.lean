import Tidemark.Proofs.HighWater.Detector
import Tidemark.Proofs.HighWater.Safety

/-!
# Passes that are outrun

A pass reads the highest position that was assigned in its first round trip and computes the mark
in later ones, between which others write (`Underway`). The mark that it computes is never below the
one on record. Above the highest position that it has read lies the mark exactly if the one on
record lay there, or the writers have outrun the reading (`Outrun`): nothing was missing up to that
position when the pass looked for a gap, and something was committed above it when the pass searched
(`Underway.ordered_iff`). One event that is appended behind the reading is enough for that
(`Underway.exists_outrun`).
-/

namespace Tidemark

open LogView SearchedLog EditedLog
open MemoryLog (EndsRun)

/-! ## Gaps up to a bound -/

/-- No gap that begins from a start on and at or below a bound lies between two of some
positions. -/
def GaplessTo (ps : List Position) (start bound : Position) : Prop :=
  ∀ p ∈ ps, start ≤ p → p ≤ bound → (∃ q ∈ ps, p < q) → p + 1 ∈ ps

/-- The first run ends above a bound exactly if there is no gap up to the bound and a position above
it. -/
theorem MemoryLog.EndsRun.lt_iff {ps : List Position} {start bound m : Position}
    (h : EndsRun ps start m) :
    bound < m ↔ GaplessTo ps start bound ∧ ∃ q ∈ ps, start ≤ q ∧ bound < q := by
  constructor
  · intro hm
    exact ⟨fun p hp hsp hpb _ => h.lowest p hp hsp (lt_of_le_of_lt hpb hm), m, h.mem, h.above, hm⟩
  · rintro ⟨hgapless, q, hq, -, hbq⟩
    by_contra hle
    have hmb : m ≤ bound := not_lt.mp hle
    exact h.gap (hgapless m h.mem h.above hmb ⟨q, hq, lt_of_le_of_lt hmb hbq⟩)

/-- The highest position lies above a bound exactly if some position does. -/
theorem lt_greatest_iff {ps : List Position} {start bound m : Position}
    (hm : IsGreatest {q | q ∈ ps ∧ start ≤ q} m) :
    bound < m ↔ ∃ q ∈ ps, start ≤ q ∧ bound < q := by
  constructor
  · intro hlt
    exact ⟨m, hm.1.1, hm.1.2, hlt⟩
  · rintro ⟨q, hq, hsq, hbq⟩
    exact lt_of_lt_of_le hbq (hm.2 ⟨hq, hsq⟩)

/-! ## Round trips -/

/-- A round trip of a pass, with what writers had done to the log when it was made. -/
structure Trip where
  pass : Pass
  seen : Written

/-- The round trip looks for a gap. -/
def Trip.Scans (t : Trip) : Prop := ∃ known, t.pass = .scanning known

/-- The round trip looks for a gap or for the highest position. -/
def Trip.Searches (t : Trip) : Prop := t.Scans ∨ ∃ known, t.pass = .measuring known

/-- Writers have outrun the reading of the statistics. -/
structure Outrun (trips : List Trip) (s : Statistics) : Prop where
  /-- There was no gap up to the highest position that was read. -/
  gapless : ∃ t ∈ trips, t.Scans ∧ GaplessTo t.seen.committed s.safeStartMark s.highestSequence
  /-- Something was committed above that position. -/
  above : ∃ t ∈ trips, t.Searches ∧
    ∃ q ∈ t.seen.committed, s.safeStartMark ≤ q ∧ s.highestSequence < q

/-- The mark is not below the one on record, and it is above the highest position exactly if the one
on record was or the reading was outrun. -/
def Ordered (trips : List Trip) (s : Statistics) : Prop :=
  s.lastMark ≤ s.currentMark ∧
    (s.currentMark ≤ s.highestSequence ↔ s.lastMark ≤ s.highestSequence ∧ ¬ Outrun trips s)

/-- No search has been made. -/
def Unsearched (trips : List Trip) : Prop := ∀ t ∈ trips, ¬ t.Searches

/-- Without a search nothing outruns a reading. -/
theorem Unsearched.not_outrun {trips : List Trip} {s : Statistics} (h : Unsearched trips) :
    ¬ Outrun trips s := fun houtrun => by
  obtain ⟨t, ht, hsearches, -⟩ := houtrun.above
  exact h t ht hsearches

/-- A round trip that is no search outruns no reading. -/
theorem outrun_cons {t : Trip} {trips : List Trip} {s : Statistics} (h : ¬ t.Searches) :
    Outrun (t :: trips) s ↔ Outrun trips s := by
  have hscans : ¬ t.Scans := fun hscans => h (.inl hscans)
  constructor
  · rintro ⟨hgapless, habove⟩
    simp only [List.mem_cons, exists_eq_or_imp, hscans, h, false_and, false_or] at hgapless habove
    exact ⟨hgapless, habove⟩
  · rintro ⟨⟨t', ht', hgapless⟩, ⟨t'', ht'', habove⟩⟩
    exact ⟨⟨t', .tail _ ht', hgapless⟩, ⟨t'', .tail _ ht'', habove⟩⟩

/-! ## Passes under way -/

/-- A pass between whose round trips others edit the log. -/
structure Underway (L : Type) where
  log : L
  pass : Pass
  /-- The round trips that were made, the last one first. -/
  trips : List Trip := []

namespace Underway

variable {L : Type} [EventLog L] [EditedLog L]

/-- The round trip that the pass makes next. -/
def trip (u : Underway L) : Trip := ⟨u.pass, written u.log⟩

/-- What can happen to a pass under way. -/
inductive Step (u : Underway L) : Underway L → Prop where
  /-- Others edit the log. -/
  | edits {log' : L} (h : Edited u.log log') : Step u { u with log := log' }
  /-- A round trip leads to a further one. -/
  | goesOn {q : Pass} {log' : L} {now : Timestamp}
    (hstep : u.pass.step u.log now = (.ok (.more q), log')) : Step u ⟨log', q, u.trip :: u.trips⟩

/-- The pass ends with its next round trip, and these are all that it has made. -/
def Finishes (u : Underway L) (s : Statistics) (trips : List Trip) : Prop :=
  trips = u.trip :: u.trips ∧ ∃ now log', u.pass.step u.log now = (.ok (.found s), log')

end Underway

namespace Pass

/-- The mark is not computed yet, and the scan begins at the mark on record or above it. -/
structure Undecided (known : Statistics) : Prop where
  start : known.lastMark ≤ known.safeStartMark
  current : known.currentMark = 0
  highest : 0 ≤ known.highestSequence

/-- What a pass under way knows, after its round trips and with these positions committed. -/
def Knows (trips : List Trip) (ps : List Position) : Pass → Prop
  | reading _ => Unsearched trips
  | locating _ known | scanning known => Unsearched trips ∧ Undecided known
  | measuring known =>
    Undecided known ∧ ∃ scan rest, trips = ⟨scanning known, scan⟩ :: rest ∧ Unsearched rest ∧
      Gapless scan.committed known.safeStartMark ∧ scan.committed ⊆ ps
  | persisting known => Ordered trips known

/-- What a round trip leads to. -/
def Next.Knows (trips : List Trip) (ps : List Position) : Next → Prop
  | .more q => q.Knows trips ps
  | .found s => Ordered trips s

/-- What a pass knows stays right while no committed position is taken back. -/
theorem Knows.mono {trips : List Trip} {ps qs : List Position} (hsub : ps ⊆ qs) {p : Pass}
    (h : p.Knows trips ps) : p.Knows trips qs := by
  cases p with
  | measuring known =>
    obtain ⟨hundecided, scan, rest, htrips, hrest, hgapless, hscan⟩ := h
    exact ⟨hundecided, scan, rest, htrips, hrest, hgapless, List.Subset.trans hscan hsub⟩
  | _ => exact h

variable {trips : List Trip} {ps : List Position} {known : Statistics}

/-- A mark that is in order is settled in order. -/
theorem settle_knows (h : Ordered trips known) : (settle known).Knows trips ps := by
  unfold settle
  split_ifs
  · exact h
  · exact h

/-- A pass that begins to compute goes on to its scan, unless there is nothing to search for. -/
theorem compute_knows (hunsearched : Unsearched trips) (h : Undecided known) :
    (compute known).Knows trips ps := by
  unfold compute
  split_ifs with hequal hempty
  · refine settle_knows ⟨le_refl _, ?_⟩
    exact iff_of_true hequal.le ⟨hequal.le, hunsearched.not_outrun⟩
  · refine settle_knows ⟨le_refl _, ?_⟩
    exact iff_of_true h.highest ⟨h.highest, hunsearched.not_outrun⟩
  · exact ⟨hunsearched, h⟩

/-- A mark that a search has found is in order if it is above the highest position exactly where
the reading was outrun. -/
theorem ordered_of_found {m : Position} (h : Undecided known) (habove : known.safeStartMark ≤ m)
    (houtrun : known.highestSequence < m ↔ Outrun trips { known with currentMark := m }) :
    Ordered trips { known with currentMark := m } := by
  have hlast : known.lastMark ≤ m := le_trans h.start habove
  refine ⟨hlast, ?_⟩
  rw [← houtrun, not_lt]
  exact ⟨fun hle => ⟨le_trans hlast hle, hle⟩, And.right⟩

/-- Where nothing is committed from the start on, the mark that is fallen back to is in order. -/
theorem fallBack_ordered (h : Undecided known) (houtrun : ¬ Outrun trips known) :
    Ordered trips (fallBack known) := by
  unfold fallBack
  split_ifs with hpos
  · refine ⟨le_refl _, ?_⟩
    have houtrun' : ¬ Outrun trips { known with currentMark := known.lastMark } :=
      fun ⟨hgapless, habove⟩ => houtrun ⟨hgapless, habove⟩
    exact ⟨fun hle => ⟨hle, houtrun'⟩, And.left⟩
  · have hlast : known.lastMark ≤ 0 := by
      by_contra hlt
      exact hpos ⟨h.current, not_le.mp hlt⟩
    have hhighest := h.highest
    refine ⟨by rw [h.current]; exact hlast, iff_of_true ?_ ⟨le_trans hlast hhighest, houtrun⟩⟩
    rw [h.current]
    exact hhighest

variable {L : Type} [EventLog L] [EditedLog L] {log log' : L} {now : Timestamp}

/-- The statistics that are read leave the mark undecided. -/
theorem undecided_of_statistics {raw : RawStatistics} (hpositive : (written log).Positive)
    (h : EventLog.fetchStatistics .highWater log now = (.ok raw, log')) :
    Undecided (.ofRaw raw) where
  start := le_refl _
  current := rfl
  highest := by
    show 0 ≤ raw.highestSequence
    rw [highest_eq h]
    exact hpositive.assigned

/-- A safe zone leaves the mark undecided. -/
theorem Undecided.enterZone (h : Undecided known) (found : Option Position) :
    Undecided (enterZone known found) := by
  cases found with
  | none => exact h
  | some p => exact ⟨le_max_right _ _, h.current, h.highest⟩

/-- A gap that is found decides the mark. -/
theorem ordered_of_firstGap {m : Position} (hkept : Kept log) (hunsearched : Unsearched trips)
    (h : Undecided known)
    (hask : EventLog.findFirstGap known.safeStartMark log now = (.ok (some m), log')) :
    Ordered (⟨scanning known, written log⟩ :: trips) { known with currentMark := m } := by
  have hrun := firstGap_some hkept hask
  refine ordered_of_found h hrun.above ?_
  rw [hrun.lt_iff]
  have hscans : Trip.Scans ⟨scanning known, written log⟩ := ⟨known, rfl⟩
  constructor
  · rintro ⟨hgapless, habove⟩
    exact ⟨⟨_, List.mem_cons_self, hscans, hgapless⟩,
      ⟨_, List.mem_cons_self, .inl hscans, habove⟩⟩
  · rintro ⟨⟨t, ht, htscans, hgapless⟩, ⟨t', ht', htsearches, habove⟩⟩
    -- The scan is the only search.
    rcases List.mem_cons.mp ht with rfl | ht
    · rcases List.mem_cons.mp ht' with rfl | ht'
      · exact ⟨hgapless, habove⟩
      · exact absurd htsearches (hunsearched t' ht')
    · exact absurd (.inl htscans) (hunsearched t ht)

/-- After a scan that has found no gap, the reading was outrun exactly if the search for the highest
position comes upon one above the highest position that was read. -/
theorem outrun_measured_iff {scan seen : Written} (hunsearched : Unsearched trips)
    (hgapless : Gapless scan.committed known.safeStartMark)
    (hsub : scan.committed ⊆ seen.committed) (m : Position) :
    Outrun (⟨measuring known, seen⟩ :: ⟨scanning known, scan⟩ :: trips)
        { known with currentMark := m } ↔
      ∃ q ∈ seen.committed, known.safeStartMark ≤ q ∧ known.highestSequence < q := by
  have hscans : Trip.Scans ⟨scanning known, scan⟩ := ⟨known, rfl⟩
  have hmeasures : Trip.Searches ⟨measuring known, seen⟩ := .inr ⟨known, rfl⟩
  constructor
  · rintro ⟨-, t, ht, hsearches, q, hq, hsq, hlt⟩
    rcases List.mem_cons.mp ht with rfl | ht
    · exact ⟨q, hq, hsq, hlt⟩
    · rcases List.mem_cons.mp ht with rfl | ht
      · exact ⟨q, hsub hq, hsq, hlt⟩
      · exact absurd hsearches (hunsearched t ht)
  · intro habove
    refine ⟨⟨_, .tail _ List.mem_cons_self, hscans, ?_⟩,
      ⟨_, List.mem_cons_self, hmeasures, habove⟩⟩
    exact fun p hp hsp _ hbelow => hgapless p hp hsp hbelow

/-- The search for the highest position decides the mark. -/
theorem measured_knows {scan : Written} {rest : List Trip} {found : Option Position}
    (hkept : Kept log) (h : Undecided known) (hrest : Unsearched rest)
    (hgapless : Gapless scan.committed known.safeStartMark)
    (hsub : scan.committed ⊆ (written log).committed)
    (hask : EventLog.findMaxCommitted known.safeStartMark log now = (.ok found, log')) :
    Ordered (⟨measuring known, written log⟩ :: ⟨scanning known, scan⟩ :: rest)
      (found.elim (fallBack known) fun m => { known with currentMark := m }) := by
  cases found with
  | some m =>
    have hgreatest := maxCommitted_some hkept hask
    refine ordered_of_found h hgreatest.1.2 ?_
    rw [outrun_measured_iff hrest hgapless hsub, lt_greatest_iff hgreatest]
  | none =>
    have hbelow := maxCommitted_none hkept hask
    refine fallBack_ordered h fun houtrun => ?_
    obtain ⟨q, hq, hsq, -⟩ :=
      (outrun_measured_iff hrest hgapless hsub known.currentMark).mp houtrun
    exact absurd (hbelow q hq) (not_lt.mpr hsq)

/-- A round trip that is answered leads on rightly. -/
theorem step_knows {p : Pass} {next : Next} (hkept : Kept log)
    (hpositive : (written log).Positive) (h : p.Knows trips (written log).committed)
    (hstep : step p log now = (.ok next, log')) :
    next.Knows (⟨p, written log⟩ :: trips) (written log').committed := by
  rw [(written_of_step hstep).1]
  have hunsearched (hp : ¬ Trip.Searches ⟨p, written log⟩) (hall : Unsearched trips) :
      Unsearched (⟨p, written log⟩ :: trips) := List.forall_mem_cons.mpr ⟨hp, hall⟩
  cases p with
  | reading zone =>
    obtain ⟨raw, hask, rfl⟩ := reply_eq_ok hstep
    have hundecided := undecided_of_statistics hpositive hask
    have hall := hunsearched (by simp [Trip.Searches, Trip.Scans]) h
    cases zone with
    | none => exact compute_knows hall hundecided
    | some t => exact ⟨hall, hundecided⟩
  | locating zone known =>
    obtain ⟨hsofar, hundecided⟩ := h
    obtain ⟨found, hask, rfl⟩ := reply_eq_ok hstep
    exact compute_knows (hunsearched (by simp [Trip.Searches, Trip.Scans]) hsofar)
      (hundecided.enterZone found)
  | scanning known =>
    obtain ⟨hsofar, hundecided⟩ := h
    obtain ⟨found, hask, rfl⟩ := reply_eq_ok hstep
    cases found with
    | some m => exact settle_knows (ordered_of_firstGap hkept hsofar hundecided hask)
    | none =>
      exact ⟨hundecided, written log, trips, rfl, hsofar, firstGap_none hkept hask,
        List.Subset.refl _⟩
  | measuring known =>
    obtain ⟨hundecided, scan, rest, rfl, hrest, hgapless, hsub⟩ := h
    obtain ⟨found, hask, rfl⟩ := reply_eq_ok hstep
    have hordered := measured_knows hkept hundecided hrest hgapless hsub hask
    cases found with
    | some m => exact settle_knows hordered
    | none => exact settle_knows hordered
  | persisting known =>
    obtain ⟨updated, -, rfl⟩ := reply_eq_ok hstep
    obtain ⟨hle, hiff⟩ := h
    refine ⟨hle, hiff.trans (and_congr_right fun _ => not_congr ?_)⟩
    rw [outrun_cons (by simp [Trip.Searches, Trip.Scans])]
    exact ⟨fun ⟨hgapless, habove⟩ => ⟨hgapless, habove⟩,
      fun ⟨hgapless, habove⟩ => ⟨hgapless, habove⟩⟩

end Pass

namespace Underway

variable {L : Type} [EventLog L] [EditedLog L]

/-- What holds of a pass under way at any time. -/
structure Orderly (u : Underway L) : Prop where
  kept : Kept u.log
  positive : (written u.log).Positive
  knows : u.pass.Knows u.trips (written u.log).committed

/-- Whatever happens, what a pass knows stays right. -/
theorem Orderly.step {u u' : Underway L} (h : u.Orderly) (hstep : Step u u') : u'.Orderly := by
  cases hstep with
  | edits hedit =>
    exact ⟨kept_of_edited hedit h.kept, positive_of_edited hedit h.positive,
      h.knows.mono (subset_of_edited hedit)⟩
  | goesOn hround =>
    obtain ⟨hwritten, hkept⟩ := Pass.written_of_step hround
    exact ⟨hkept h.kept, by rw [hwritten]; exact h.positive,
      Pass.step_knows h.kept h.positive h.knows hround⟩

/-- Along every run, what a pass knows stays right. -/
theorem Orderly.steps {u u' : Underway L} (h : u.Orderly) (hrun : Relation.ReflTransGen Step u u') :
    u'.Orderly := by
  induction hrun with
  | refl => exact h
  | tail _ hstep ih => exact ih.step hstep

/-- A pass over the whole log or in a safe zone, between whose round trips others write, over a log
in order. The statistics that it ends with have a mark that is not below the one on record. It is
not above the highest position in them exactly if the one on record was not and the writers have not
outrun the reading. -/
theorem ordered_iff {log : L} {u : Underway L} {s : Statistics} {trips : List Trip}
    (hkept : Kept log) (hpositive : (written log).Positive) (zone : Option Timestamp)
    (hrun : Relation.ReflTransGen Step ⟨log, .reading zone, []⟩ u) (hend : u.Finishes s trips) :
    s.lastMark ≤ s.currentMark ∧
      (s.currentMark ≤ s.highestSequence ↔
        s.lastMark ≤ s.highestSequence ∧ ¬ Outrun trips s) := by
  have hstart : Orderly (⟨log, .reading zone, []⟩ : Underway L) :=
    ⟨hkept, hpositive, List.forall_mem_nil _⟩
  have horderly := hstart.steps hrun
  obtain ⟨rfl, now, log', hround⟩ := hend
  exact Pass.step_knows horderly.kept horderly.positive horderly.knows hround

/-- Position 1 is committed and position 2 open when the statistics are read, and an event is
appended at position 3 before the scan: the pass finds 1, which is in order. -/
theorem ordered_of_hole :
    ∃ (u : Underway MemoryLog) (s : Statistics) (trips : List Trip),
      Relation.ReflTransGen Step
          ⟨{ highest := 2, events := [(1, MemoryLog.blank)] }, .reading none, []⟩ u ∧
        u.Finishes s trips ∧ 3 ∈ u.log.committed ∧ s.currentMark = 1 ∧ s.highestSequence = 2 ∧
          s.lastMark ≤ s.currentMark ∧ ¬ Outrun trips s := by
  let now : Timestamp := ⟨0, false⟩
  let log : MemoryLog := { highest := 2, events := [(1, MemoryLog.blank)] }
  let read : MemoryLog := { log with calls := 1 }
  let grown : MemoryLog :=
    { highest := 3, events := [(1, MemoryLog.blank), (3, MemoryLog.blank)], calls := 1 }
  let known : Statistics := ⟨0, 2, 0, 0, now, none⟩
  have hkept : MemoryLog.Ascending log.events := List.pairwise_singleton _ _
  have hpositive : (written log).Positive := ⟨by decide, by decide⟩
  have hread : Pass.step (.reading none) log now = (.ok (.more (.scanning known)), read) := rfl
  have happend : Edited read grown := MemoryLog.Edited.appended (p := 3) MemoryLog.blank rfl
  have hscan : Pass.step (.scanning known) grown now =
      (.ok (.more (.persisting { known with currentMark := 1 })), { grown with calls := 2 }) := rfl
  have hrun : Relation.ReflTransGen Step ⟨log, .reading none, []⟩
      ⟨{ grown with calls := 2 }, .persisting { known with currentMark := 1 }, _⟩ :=
    .tail (.tail (.single (.goesOn hread)) (.edits happend)) (.goesOn hscan)
  have hrecord : Pass.step (.persisting { known with currentMark := 1 }) { grown with calls := 2 }
      now = (.ok (.found { known with currentMark := 1, lastUpdated := some now }), _) := rfl
  obtain ⟨hle, hiff⟩ := ordered_iff hkept hpositive none hrun ⟨rfl, now, _, hrecord⟩
  exact ⟨_, _, _, hrun, ⟨rfl, now, _, hrecord⟩, by decide, rfl, rfl, hle, (hiff.mp (by decide)).2⟩

/-- Position 1 is committed and nothing else assigned when the statistics are read, and an event is
appended before the scan: the pass finds 2, above the highest position that it has read. -/
theorem exists_outrun :
    ∃ (u : Underway MemoryLog) (s : Statistics) (trips : List Trip),
      Relation.ReflTransGen Step
          ⟨{ highest := 1, events := [(1, MemoryLog.blank)] }, .reading none, []⟩ u ∧
        u.Finishes s trips ∧ s.highestSequence = 1 ∧ s.currentMark = 2 := by
  let now : Timestamp := ⟨0, false⟩
  let log : MemoryLog := { highest := 1, events := [(1, MemoryLog.blank)] }
  let read : MemoryLog := { log with calls := 1 }
  let grown : MemoryLog :=
    { highest := 2, events := [(1, MemoryLog.blank), (2, MemoryLog.blank)], calls := 1 }
  let known : Statistics := ⟨0, 1, 0, 0, now, none⟩
  have hread : Pass.step (.reading none) log now = (.ok (.more (.scanning known)), read) := rfl
  have happend : Edited read grown := MemoryLog.Edited.appended (p := 2) MemoryLog.blank rfl
  have hscan : Pass.step (.scanning known) grown now =
      (.ok (.more (.measuring known)), { grown with calls := 2 }) := rfl
  have hmeasure : Pass.step (.measuring known) { grown with calls := 2 } now =
      (.ok (.more (.persisting { known with currentMark := 2 })), { grown with calls := 3 }) := rfl
  have hrun : Relation.ReflTransGen Step ⟨log, .reading none, []⟩
      ⟨{ grown with calls := 3 }, .persisting { known with currentMark := 2 }, _⟩ :=
    .tail (.tail (.tail (.single (.goesOn hread)) (.edits happend)) (.goesOn hscan))
      (.goesOn hmeasure)
  have hrecord : Pass.step (.persisting { known with currentMark := 2 }) { grown with calls := 3 }
      now = (.ok (.found { known with currentMark := 2, lastUpdated := some now }), _) := rfl
  exact ⟨_, _, _, hrun, ⟨rfl, now, _, hrecord⟩, rfl, rfl⟩

end Underway

end Tidemark
