import Mathlib.Logic.Relation
import Tidemark.Proofs.HighWater.Pass
import Tidemark.Proofs.Log.Edited

/-!
# A detector that others interrupt

A `Detector` makes one pass after the other, over the whole log or in a safe zone. Between any two
of its round trips others may edit the log, and any round trip may fail. As long as nobody else
records the high water mark, a pass under way is right about it (`Pass.Tracks`). So the mark on
record never goes down, it is zero or a committed position, a pass that fails leaves it where it
was, and a pass that succeeds has put it to the mark that it found, if that is higher
(`Detector.mark_of_passes`).
-/

namespace Tidemark

open LogView SearchedLog EditedLog

/-! ## Passes -/

namespace Pass

/-- What a pass under way knows about the mark on record and the committed positions. -/
def Tracks (row : Position) (committed : List Position) : Pass → Prop
  | reading _ => True
  | locating _ known =>
    known.lastMark = row ∧ known.safeStartMark = row ∧ known.currentMark = 0
  | scanning known | measuring known =>
    known.lastMark = row ∧ row ≤ known.safeStartMark ∧ known.currentMark = 0
  | persisting known =>
    known.lastMark = row ∧ row < known.currentMark ∧ known.currentMark ∈ committed

/-- What a round trip must have led to if the mark on record was `row` before it and is `row'` after
it. A pass that ends has put the mark to the one that it found, if that is higher. -/
def Next.Tracks (row : Position) (committed : List Position) (row' : Position) : Next → Prop
  | .more q => row' = row ∧ q.Tracks row committed
  | .found s => s.lastMark ≤ s.currentMark ∧ row' = max row s.currentMark ∧
      (row' = row ∨ row' ∈ committed)

/-- What a pass knows stays right while no committed position is taken back. -/
theorem Tracks.mono {row : Position} {ps qs : List Position} (hsub : ps ⊆ qs) {p : Pass}
    (h : p.Tracks row ps) : p.Tracks row qs := by
  cases p with
  | reading zone => trivial
  | locating zone known => exact h
  | scanning known => exact h
  | measuring known => exact h
  | persisting known => exact ⟨h.1, h.2.1, hsub h.2.2⟩

section Step

variable {row : Position} {ps : List Position} {known : Statistics}

/-- A pass that settles a mark which is not below the one on record either goes on to record it, or
ends because it is on record already. -/
theorem settle_tracks (hlast : known.lastMark = row) (hle : row ≤ known.currentMark)
    (hmem : known.currentMark = row ∨ known.currentMark ∈ ps) :
    (settle known).Tracks row ps row := by
  unfold settle
  split_ifs with hchanged
  · have hlt : known.lastMark < known.currentMark := by simpa [Statistics.hasChanged] using hchanged
    rw [hlast] at hlt
    exact ⟨rfl, hlast, hlt, hmem.resolve_left hlt.ne'⟩
  · have hge : known.currentMark ≤ known.lastMark := by
      simpa [Statistics.hasChanged] using hchanged
    have heq : row = max row known.currentMark := by lia
    exact ⟨by lia, heq, .inl rfl⟩

/-- A pass that knows where to begin its scan goes on to it, unless it knows the mark already. -/
theorem compute_tracks (hrow : 0 ≤ row) (hlast : known.lastMark = row)
    (hstart : row ≤ known.safeStartMark) (hcurrent : known.currentMark = 0) :
    (compute known).Tracks row ps row := by
  unfold compute
  split_ifs with hequal hempty
  · exact settle_tracks hlast hlast.ge (.inl hlast)
  · -- Where nothing was assigned, the pass finds zero, and leaves the mark on record.
    refine ⟨le_refl _, (max_eq_left hrow).symm, .inl rfl⟩
  · exact ⟨rfl, hlast, hstart, hcurrent⟩

/-- Where nothing is found, the mark falls back to the one on record. -/
theorem fallBack_currentMark (hrow : 0 ≤ row) (hlast : known.lastMark = row)
    (hcurrent : known.currentMark = 0) :
    (fallBack known).lastMark = row ∧ (fallBack known).currentMark = row := by
  unfold fallBack
  split_ifs with hpos
  · exact ⟨hlast, hlast⟩
  · have hnone : ¬ 0 < known.lastMark := fun hlt => hpos ⟨hcurrent, hlt⟩
    exact ⟨hlast, by lia⟩

variable {L : Type} [EventLog L] [EditedLog L] {log log' : L} {now : Timestamp}

/-- A round trip that is answered leads on rightly. -/
theorem step_tracks {p : Pass} {next : Next} (hkept : Kept log) (hrow : 0 ≤ highWater log)
    (h : p.Tracks (highWater log) (written log).committed)
    (hstep : step p log now = (.ok next, log')) :
    next.Tracks (highWater log) (written log).committed (highWater log') := by
  -- All round trips but the last leave the mark on record.
  have hasked (hview : SameView log log')
      (hnext : next.Tracks (highWater log) (written log).committed (highWater log)) :
      next.Tracks (highWater log) (written log).committed (highWater log') := by
    have hmark : highWater log' = highWater log := by rw [highWater, hview.recorded, highWater]
    rwa [hmark]
  cases p with
  | reading zone =>
    obtain ⟨raw, hask, rfl⟩ := reply_eq_ok hstep
    have hlast : raw.lastMark = highWater log := DetectedLog.statistics_eq hask
    refine hasked (DetectedLog.frame_statistics hask) ?_
    cases zone with
    | none => exact compute_tracks hrow hlast hlast.ge rfl
    | some t => exact ⟨rfl, hlast, hlast, rfl⟩
  | locating zone known =>
    obtain ⟨hlast, hstart, hcurrent⟩ := h
    obtain ⟨found, hask, rfl⟩ := reply_eq_ok hstep
    refine hasked (DetectedLog.frame_earliest hask) ?_
    cases found with
    | some p => exact compute_tracks hrow hlast (hlast.ge.trans (le_max_right _ _)) hcurrent
    | none => exact compute_tracks hrow hlast hstart.ge hcurrent
  | scanning known =>
    obtain ⟨hlast, hstart, hcurrent⟩ := h
    obtain ⟨found, hask, rfl⟩ := reply_eq_ok hstep
    refine hasked (DetectedLog.frame_firstGap hask) ?_
    cases found with
    | some p =>
      have hrun := firstGap_some hkept hask
      exact settle_tracks hlast (hstart.trans hrun.above) (.inr hrun.mem)
    | none => exact ⟨rfl, hlast, hstart, hcurrent⟩
  | measuring known =>
    obtain ⟨hlast, hstart, hcurrent⟩ := h
    obtain ⟨found, hask, rfl⟩ := reply_eq_ok hstep
    refine hasked (DetectedLog.frame_maxCommitted hask) ?_
    cases found with
    | some p =>
      obtain ⟨hmem, habove⟩ := (maxCommitted_some hkept hask).1
      exact settle_tracks hlast (hstart.trans habove) (.inr hmem)
    | none =>
      obtain ⟨hlast', hcurrent'⟩ := fallBack_currentMark hrow hlast hcurrent
      exact settle_tracks hlast' hcurrent'.ge (.inl hcurrent')
  | persisting known =>
    obtain ⟨hlast, hlt, hmem⟩ := h
    obtain ⟨updated, hpersist, rfl⟩ := reply_eq_ok hstep
    obtain ⟨-, hrecorded, -⟩ := LawfulLog.persist_ok hpersist
    have hmark : highWater log' = known.currentMark := by
      rw [highWater, hrecorded, Function.update_self]
    exact ⟨hlast ▸ hlt.le, by rw [hmark]; exact (max_eq_right hlt.le).symm, .inr (hmark ▸ hmem)⟩

/-- A round trip writes no events, whether it is answered or fails, and keeps the log in order. -/
theorem written_of_step {p : Pass} {outcome : Outcome Next}
    (hstep : step p log now = (outcome, log')) :
    written log' = written log ∧ (Kept log → Kept log') := by
  have hanswer {α β : Type} {answer : Outcome α × L} {k : α → β} {b : Outcome β}
      (h : reply answer k = (b, log')) : answer = (answer.1, log') := by
    have hlog : answer.2 = log' := congrArg Prod.snd h
    exact Prod.ext rfl hlog
  cases p with
  | reading zone =>
    have hask := hanswer hstep
    exact ⟨written_statistics hask, (DetectedLog.frame_statistics hask).kept⟩
  | locating zone known =>
    have hask := hanswer hstep
    exact ⟨written_earliest hask, (DetectedLog.frame_earliest hask).kept⟩
  | scanning known =>
    have hask := hanswer hstep
    exact ⟨written_firstGap hask, (DetectedLog.frame_firstGap hask).kept⟩
  | measuring known =>
    have hask := hanswer hstep
    exact ⟨written_maxCommitted hask, (DetectedLog.frame_maxCommitted hask).kept⟩
  | persisting known =>
    have hask := hanswer hstep
    refine ⟨written_persist hask, ?_⟩
    cases houtcome : (EventLog.persistMark .highWater known.currentMark log now).1 with
    | ok updated => exact (LawfulLog.persist_ok (houtcome ▸ hask)).1
    | error fault => exact (LawfulLog.persist_error (houtcome ▸ hask)).kept

end Step

end Pass

/-! ## Detectors -/

/-- A pass that has ended. -/
structure Ended (L : Type) where
  /-- The log when the pass began. -/
  before : L
  outcome : Outcome Statistics
  /-- The log when the pass ended. -/
  after : L

/-- A detector at work. -/
structure Detector (L : Type) where
  log : L
  /-- The pass under way, with the log as it was when the pass began. -/
  pass : Option (L × Pass) := none
  /-- The passes that have ended, the last one first. -/
  ended : List (Ended L) := []

namespace Detector

variable {L : Type} [EventLog L] [EditedLog L]

/-- What can happen to a detector and its log at once. -/
inductive Step (d : Detector L) : Detector L → Prop where
  /-- Others edit the log. -/
  | edits {log' : L} (h : Edited d.log log') : Step d { d with log := log' }
  /-- A pass begins, in a safe zone if a time is given. -/
  | begins (h : d.pass = none) (zone : Option Timestamp) :
    Step d { d with pass := some (d.log, .reading zone) }
  /-- A round trip leads to a further one. -/
  | goesOn {before log' : L} {p q : Pass} {now : Timestamp} (h : d.pass = some (before, p))
    (hstep : p.step d.log now = (.ok (.more q), log')) :
    Step d { d with log := log', pass := some (before, q) }
  /-- A pass succeeds. -/
  | succeeds {before log' : L} {p : Pass} {s : Statistics} {now : Timestamp}
    (h : d.pass = some (before, p)) (hstep : p.step d.log now = (.ok (.found s), log')) :
    Step d ⟨log', none, ⟨before, .ok s, log'⟩ :: d.ended⟩
  /-- A pass fails. -/
  | fails {before log' : L} {p : Pass} {fault : Fault} {now : Timestamp}
    (h : d.pass = some (before, p)) (hstep : p.step d.log now = (.error fault, log')) :
    Step d ⟨log', none, ⟨before, .error fault, log'⟩ :: d.ended⟩
  /-- A round trip does not reach the log, so that the pass fails. -/
  | refused {before : L} {p : Pass} (fault : Fault) (h : d.pass = some (before, p)) :
    Step d ⟨d.log, none, ⟨before, .error fault, d.log⟩ :: d.ended⟩

/-- A pass without interruption is made of steps of the detector. -/
theorem steps_of_run {before : L} {ended : List (Ended L)} (p : Pass) (log : L) (now : Timestamp) :
    Relation.ReflTransGen Step ⟨log, some (before, p), ended⟩
      ⟨(p.run log now).2, none, ⟨before, (p.run log now).1, (p.run log now).2⟩ :: ended⟩ := by
  fun_induction Pass.run p log now with
  | case1 p log q log' hstep ih => exact .head (.goesOn rfl hstep) ih
  | case2 p log s log' hstep => exact .single (.succeeds rfl hstep)
  | case3 p log fault log' hstep => exact .single (.fails rfl hstep)

/-- A detector that has not begun, over a log in order in which the mark is not on record. -/
structure Fresh (d : Detector L) : Prop where
  kept : Kept d.log
  positive : (written d.log).Positive
  unrecorded : highWater d.log = 0
  idle : d.pass = none
  unused : d.ended = []

end Detector

/-- What is right of the mark on record after a pass: a pass that succeeds has put it to the mark
that it found, if that is higher, and has found no lower mark than it had read, and a pass that
fails has left it. -/
def Ended.Right {L : Type} [LogView L] (e : Ended L) : Prop :=
  match e.outcome with
  | .ok s => highWater e.after = max (highWater e.before) s.currentMark ∧ s.lastMark ≤ s.currentMark
  | .error _ => highWater e.after = highWater e.before

namespace Detector

variable {L : Type} [EventLog L] [EditedLog L]

/-- What holds of a detector at any time. -/
structure Tracking (d : Detector L) : Prop where
  kept : Kept d.log
  positive : (written d.log).Positive
  mark : highWater d.log = 0 ∨ highWater d.log ∈ (written d.log).committed
  pass : ∀ before p, d.pass = some (before, p) → highWater before = highWater d.log ∧
    p.Tracks (highWater d.log) (written d.log).committed
  ended : ∀ e ∈ d.ended, e.Right

/-- A detector that has not begun is right about everything. -/
theorem Fresh.tracking {d : Detector L} (h : d.Fresh) : d.Tracking where
  kept := h.kept
  positive := h.positive
  mark := .inl h.unrecorded
  pass before p hp := by
    rw [h.idle] at hp
    cases hp
  ended e he := by
    rw [h.unused] at he
    cases he

/-- The mark on record is never negative. -/
theorem Tracking.nonneg {d : Detector L} (h : d.Tracking) : 0 ≤ highWater d.log := by
  rcases h.mark with hzero | hmem
  · exact hzero.ge
  · have := h.positive.committed _ hmem
    lia

/-- Whatever happens keeps a detector right, and does not lower the mark on record. -/
theorem Tracking.step {d d' : Detector L} (h : d.Tracking) (hstep : Step d d') :
    d'.Tracking ∧ highWater d.log ≤ highWater d'.log := by
  -- There is nothing to know where no pass is under way.
  have hidle {log' : L} : ∀ before p, (none : Option (L × Pass)) = some (before, p) →
      highWater before = highWater log' ∧ p.Tracks (highWater log') (written log').committed :=
    fun _ _ hp => (Option.some_ne_none _ hp.symm).elim
  cases hstep with
  | @edits log' hedit =>
    have hmark : highWater log' = highWater d.log := highWater_of_edited hedit
    have hsub : (written d.log).committed ⊆ (written log').committed := subset_of_edited hedit
    refine ⟨⟨kept_of_edited hedit h.kept, positive_of_edited hedit h.positive, ?_, ?_, h.ended⟩,
      hmark.ge⟩
    · rw [hmark]
      exact h.mark.imp id (hsub ·)
    · intro before p hp
      rw [hmark]
      exact ⟨(h.pass before p hp).1, (h.pass before p hp).2.mono hsub⟩
  | begins hidle zone =>
    refine ⟨⟨h.kept, h.positive, h.mark, fun before p hp => ?_, h.ended⟩, le_refl _⟩
    obtain ⟨rfl, rfl⟩ := Prod.mk.inj (Option.some.inj hp)
    exact ⟨rfl, trivial⟩
  | @goesOn before log' p q now hp hround =>
    obtain ⟨hbefore, htracks⟩ := h.pass before p hp
    obtain ⟨hwritten, hkept⟩ := Pass.written_of_step hround
    have hpositive : (written log').Positive := by
      rw [hwritten]
      exact h.positive
    obtain ⟨hmark, hq⟩ := Pass.step_tracks h.kept h.nonneg htracks hround
    refine ⟨⟨hkept h.kept, hpositive, ?_, fun before' q' hq' => ?_, h.ended⟩, hmark.ge⟩
    · rw [hmark, hwritten]
      exact h.mark
    · obtain ⟨rfl, rfl⟩ := Prod.mk.inj (Option.some.inj hq')
      rw [hmark, hwritten]
      exact ⟨hbefore, hq⟩
  | @succeeds before log' p s now hp hround =>
    obtain ⟨hbefore, htracks⟩ := h.pass before p hp
    obtain ⟨hwritten, hkept⟩ := Pass.written_of_step hround
    have hpositive : (written log').Positive := by
      rw [hwritten]
      exact h.positive
    obtain ⟨hle, hmark, hmem⟩ := Pass.step_tracks h.kept h.nonneg htracks hround
    refine ⟨⟨hkept h.kept, hpositive, ?_, hidle, ?_⟩, ?_⟩
    · rw [hwritten]
      rcases hmem with hstays | hmem
      · rw [hstays]
        exact h.mark
      · exact .inr hmem
    · refine List.forall_mem_cons.mpr ⟨?_, h.ended⟩
      exact ⟨by rw [hbefore]; exact hmark, hle⟩
    · rw [hmark]
      exact le_max_left _ _
  | @fails before log' p fault now hp hround =>
    have hsame : SameState d.log log' := Pass.sameState_of_failed (.refl _) hround
    have hmark : highWater log' = highWater d.log := by rw [highWater, hsame.recorded, highWater]
    have hpositive : (written log').Positive := by
      rw [hsame.written]
      exact h.positive
    refine ⟨⟨hsame.kept h.kept, hpositive, ?_, hidle, ?_⟩,
      hmark.ge⟩
    · rw [hmark, hsame.written]
      exact h.mark
    · refine List.forall_mem_cons.mpr ⟨?_, h.ended⟩
      exact hmark.trans (h.pass before p hp).1.symm
  | @refused before p fault hp =>
    refine ⟨⟨h.kept, h.positive, h.mark, hidle, ?_⟩, le_refl _⟩
    exact List.forall_mem_cons.mpr ⟨(h.pass before p hp).1.symm, h.ended⟩

/-- Along every run a detector stays right, and the mark on record does not go down. -/
theorem Tracking.steps {d d' : Detector L} (h : d.Tracking)
    (hrun : Relation.ReflTransGen Step d d') :
    d'.Tracking ∧ highWater d.log ≤ highWater d'.log := by
  induction hrun with
  | refl => exact ⟨h, le_refl _⟩
  | tail _ hstep ih =>
    obtain ⟨htracking, hle⟩ := ih
    obtain ⟨htracking', hle'⟩ := htracking.step hstep
    exact ⟨htracking', le_trans hle hle'⟩

/-- At any time of a detector that others interrupt, the mark on record is zero or a committed
position, and it does not go down from there on. Every pass that has failed left it, and every pass
that has succeeded put it to the mark that it found, if that was higher. -/
theorem mark_of_passes {start d d' : Detector L} (hstart : start.Fresh)
    (hrun : Relation.ReflTransGen Step start d) (hrun' : Relation.ReflTransGen Step d d') :
    (highWater d.log = 0 ∨ highWater d.log ∈ (written d.log).committed) ∧
      highWater d.log ≤ highWater d'.log ∧ ∀ e ∈ d.ended, e.Right := by
  obtain ⟨htracking, -⟩ := hstart.tracking.steps hrun
  obtain ⟨-, hle⟩ := htracking.steps hrun'
  exact ⟨htracking.mark, hle, htracking.ended⟩

/-- A pass fails to read the statistics. The next one reads them while position 1 is the highest
one, finds position 2, which a writer has appended in the meantime, and records it. -/
theorem mark_of_interrupted_pass :
    ∃ d : Detector MemoryLog, Relation.ReflTransGen Step ⟨{}, none, []⟩ d ∧ d.ended.length = 2 ∧
      highWater d.log = 2 ∧ highWater d.log ∈ (written d.log).committed ∧
        ∀ e ∈ d.ended, e.Right := by
  let e : Entry := default
  let now : Timestamp := ⟨0, false⟩
  let one : MemoryLog := { highest := 1, events := [(1, e)] }
  let two : MemoryLog := { highest := 2, events := [(1, e), (2, e)], calls := 2 }
  let fault : Fault := .error (.injected "fetch_statistics")
  let failed : Ended MemoryLog :=
    ⟨{ one with failNext := 1 }, .error fault, { one with calls := 1 }⟩
  have hstart : Fresh (⟨{}, none, []⟩ : Detector MemoryLog) :=
    ⟨.nil, ⟨le_refl _, nofun⟩, rfl, rfl, rfl⟩
  -- The pass that fails, and what comes before it.
  have happend : Edited {} one := MemoryLog.Edited.appended (p := 1) e rfl
  have hfailing : Edited one { one with failNext := 1 } := MemoryLog.Edited.counted 0 1 0
  have hfail : Pass.step (.reading none) { one with failNext := 1 } now =
      (.error fault, { one with calls := 1 }) := rfl
  have hfails : Relation.ReflTransGen Step ⟨{}, none, []⟩
      ⟨{ one with calls := 1 }, none, [failed]⟩ :=
    (((Relation.ReflTransGen.single (.edits happend)).tail (.edits hfailing)).tail
      (.begins rfl none)).tail (.fails rfl hfail)
  -- The first round trip of the next pass, a writer, and the rest of the pass.
  let known : Statistics := ⟨0, 1, 0, 0, now, none⟩
  have hread : Pass.step (.reading none) { one with calls := 1 } now =
      (.ok (.more (.scanning known)), { one with calls := 2 }) := rfl
  have hlate : Edited { one with calls := 2 } two := MemoryLog.Edited.appended (p := 2) e rfl
  have hrun := (((hfails.tail (.begins rfl none)).tail (.goesOn rfl hread)).tail
    (.edits hlate)).trans (steps_of_run _ two now)
  obtain ⟨hmark, -, hright⟩ := mark_of_passes hstart hrun .refl
  have htwo : highWater ((Pass.scanning known).run two now).2 = 2 := by decide +kernel
  refine ⟨_, hrun, rfl, htwo, hmark.resolve_left ?_, hright⟩
  rw [htwo]
  decide

end Detector

end Tidemark
