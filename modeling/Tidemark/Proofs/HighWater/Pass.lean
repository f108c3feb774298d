import Tidemark.HighWater.Pass
import Tidemark.Proofs.Log.Searched

/-!
# What a detection pass finds

`Pass.run_induction` is the induction along the round trips of a pass. With it, `run_leaves` says
what a pass that nobody interrupts does to a log. It scans from the mark on record, or from the
beginning of a safe zone if that lies higher (`Pass.ScansFrom`), puts the mark at the end of the
first run that it meets there or leaves it where it is (`Pass.Finds`), and records the mark that it
returns (`Pass.Leaves`). This holds of every log whose searches do what their names say;
`detect_spec` is the case of a pass over the whole of a log in memory.
-/

namespace Tidemark

namespace Pass

/-- What every further round trip keeps, and every last one turns into a result, holds of the
result of a whole pass. -/
theorem run_induction {L : Type} [EventLog L] {now : Timestamp} {I : Pass → L → Prop}
    {Q : Outcome Statistics → L → Prop}
    (more : ∀ p q log log', I p log → step p log now = (.ok (.more q), log') → I q log')
    (found : ∀ p s log log', I p log → step p log now = (.ok (.found s), log') → Q (.ok s) log')
    (failed : ∀ p fault log log', I p log → step p log now = (.error fault, log') →
      Q (.error fault) log')
    (p : Pass) (log : L) (h : I p log) : Q (run p log now).1 (run p log now).2 := by
  fun_induction run p log now with
  | case1 p log q log' hstep ih => exact ih (more p q log log' h hstep)
  | case2 p log s log' hstep => exact found p s log log' h hstep
  | case3 p log fault log' hstep => exact failed p fault log log' h hstep

/-- A round trip that was not answered was refused by the log. -/
theorem reply_eq_error {L α β : Type} {answer : Outcome α × L} {k : α → β} {fault : Fault}
    {log : L} (h : reply answer k = (.error fault, log)) : answer = (.error fault, log) := by
  obtain ⟨outcome, log'⟩ := answer
  cases outcome with
  | error fault => simpa [reply, Except.map] using h
  | ok a => simp [reply, Except.map] at h

/-! ## Passes that nobody interrupts -/

open LogView SearchedLog
open MemoryLog (EndsRun)

variable {L : Type} [EventLog L] [SearchedLog L]

/-- What detection has to find in order: the mark on record is zero or a committed position, and
every committed position has been assigned. -/
structure Sane (log : L) : Prop where
  kept : Kept log
  assigned : ∀ p ∈ (written log).committed, 1 ≤ p ∧ p ≤ (written log).assigned
  mark : highWater log = 0 ∨ highWater log ∈ (written log).committed

/-- Where a pass begins its scan: at the mark on record, unless its safe zone begins above it. -/
inductive ScansFrom (log : L) : Option Timestamp → Position → Prop where
  /-- There is no safe zone. -/
  | mark : ScansFrom log none (highWater log)
  /-- The safe zone begins at a position. -/
  | zone {zone : Timestamp} {p : Position} (h : IsLeast {q | q ∈ (written log).since zone} p) :
    ScansFrom log (some zone) (max p (highWater log))
  /-- Nothing was committed in the safe zone. -/
  | quiet {zone : Timestamp} (h : (written log).since zone = []) :
    ScansFrom log (some zone) (highWater log)

/-- No scan begins below the mark on record. -/
theorem ScansFrom.le {log : L} {zone : Option Timestamp} {start : Position}
    (h : ScansFrom log zone start) : highWater log ≤ start := by
  cases h with
  | mark => exact le_refl _
  | zone h => exact le_max_right _ _
  | quiet h => exact le_refl _

/-- Where a pass puts the mark. -/
inductive Finds (log : L) (zone : Option Timestamp) : Position → Prop where
  /-- The mark is the highest position already. -/
  | caughtUp (h : highWater log = (written log).assigned) : Finds log zone (highWater log)
  /-- The mark goes to the end of the first run of the scan. -/
  | run {start p : Position} (hs : ScansFrom log zone start)
    (h : EndsRun (written log).committed start p) : Finds log zone p
  /-- Nothing is committed where the scan begins, and the mark stays. -/
  | nothing {start : Position} (hs : ScansFrom log zone start)
    (h : ∀ q ∈ (written log).committed, q < start) : Finds log zone (highWater log)

/-- The mark is never put below the one on record. -/
theorem Finds.le {log : L} {zone : Option Timestamp} {p : Position} (h : Finds log zone p) :
    highWater log ≤ p := by
  cases h with
  | caughtUp h => exact le_refl _
  | run hs h => exact le_trans hs.le h.above
  | nothing hs h => exact le_refl _

/-- The mark is left where it is or put at a committed position. -/
theorem Finds.eq_or_mem {log : L} {zone : Option Timestamp} {p : Position}
    (h : Finds log zone p) : p = highWater log ∨ p ∈ (written log).committed := by
  cases h with
  | caughtUp h => exact .inl rfl
  | run hs h => exact .inr h.mem
  | nothing hs h => exact .inl rfl

/-- What a pass relies on at least: the log is in order, and the mark on record is not negative. -/
structure Steady (log : L) : Prop where
  kept : Kept log
  nonneg : 0 ≤ highWater log

/-- A log in which everything is in order can be relied on. -/
theorem Sane.steady {log : L} (h : Sane log) : Steady log := by
  refine ⟨h.kept, ?_⟩
  rcases h.mark with hzero | hmem
  · exact hzero.ge
  · have := h.assigned _ hmem
    lia

/-- A pass over the log comes to look for gaps: positions were assigned, and the mark on record is
not the highest of them. -/
structure Scans (log : L) : Prop where
  behind : highWater log ≠ (written log).assigned
  assigned : (written log).assigned ≠ 0

/-- Where a pass puts the mark, also if what is on record does not fit what was committed. -/
inductive Places (log : L) (zone : Option Timestamp) : Position → Prop where
  /-- The mark is the highest position already. -/
  | caughtUp (h : highWater log = (written log).assigned) : Places log zone (highWater log)
  /-- Nothing was assigned. -/
  | unassigned (hbehind : highWater log ≠ (written log).assigned)
    (h : (written log).assigned = 0) : Places log zone 0
  /-- The mark goes to the end of the first run of the scan. -/
  | run {start p : Position} (hscans : Scans log) (hs : ScansFrom log zone start)
    (h : EndsRun (written log).committed start p) : Places log zone p
  /-- Nothing is committed where the scan begins, and the mark stays. -/
  | nothing {start : Position} (hscans : Scans log) (hs : ScansFrom log zone start)
    (h : ∀ q ∈ (written log).committed, q < start) : Places log zone (highWater log)

/-- Where everything is in order, a place for the mark is one that a pass finds. -/
theorem Places.finds {log : L} (hsane : Sane log) {zone : Option Timestamp} {p : Position}
    (h : Places log zone p) : Finds log zone p := by
  cases h with
  | caughtUp h => exact .caughtUp h
  | unassigned hbehind h =>
    -- A log in which nothing was assigned has the mark zero, so that it is caught up.
    rcases hsane.mark with hzero | hmem
    · exact absurd (hzero.trans h.symm) hbehind
    · have := hsane.assigned _ hmem
      lia
  | run hscans hs h => exact .run hs h
  | nothing hscans hs h => exact .nothing hs h

/-- What a pass knows that is about to compute the mark. -/
structure Prepared (log : L) (zone : Option Timestamp) (known : Statistics) : Prop where
  last : known.lastMark = highWater log
  start : ScansFrom log zone known.safeStartMark
  current : known.currentMark = 0

/-- What a pass knows about a log before each of its round trips. -/
def Sees (log : L) (zone : Option Timestamp) : Pass → Prop
  | reading z => z = zone
  | locating z known => zone = some z ∧ known.lastMark = highWater log ∧
      known.safeStartMark = highWater log ∧ known.currentMark = 0 ∧
        known.highestSequence = (written log).assigned
  | scanning known => Prepared log zone known ∧ Scans log
  | measuring known =>
      Prepared log zone known ∧ Scans log ∧ Gapless (written log).committed known.safeStartMark
  | persisting known => Places log zone known.currentMark ∧ highWater log < known.currentMark

/-- What a pass has done to a log at its end: the mark that it returns is on record, unless a higher
one was, and nothing else has changed. -/
def Brings (log : L) (zone : Option Timestamp) (outcome : Outcome Statistics) (log' : L) : Prop :=
  match outcome with
  | .ok s =>
    Places log zone s.currentMark ∧ (Kept log → Kept log') ∧
      recorded log' = Function.update (recorded log) ShardName.highWater.identity
        (max (highWater log) s.currentMark) ∧
        written log' = written log
  | .error _ => SameState log log'

/-- What a pass has done to a log at its end: the mark that it returns is on record, and nothing
else has changed. -/
def Leaves (log : L) (zone : Option Timestamp) (outcome : Outcome Statistics) (log' : L) : Prop :=
  match outcome with
  | .ok s =>
    Finds log zone s.currentMark ∧ (Kept log → Kept log') ∧
      recorded log' = Function.update (recorded log) ShardName.highWater.identity s.currentMark ∧
        written log' = written log
  | .error _ => SameState log log'

/-- A pass that ends without recording anything has found no higher mark. -/
theorem brings_of_sameState {log log' : L} (h : SameState log log') {zone : Option Timestamp}
    {s : Statistics} (hle : s.currentMark ≤ highWater log)
    (hplaces : Places log zone s.currentMark) : Brings log zone (.ok s) log' := by
  refine ⟨hplaces, h.kept, ?_, h.written⟩
  rw [h.recorded, max_eq_left hle]
  exact (Function.update_eq_self _ _).symm

/-- What a round trip must lead to: a further one before which the pass knows what it needs, or an
end that is right. -/
def Next.Goes (log : L) (zone : Option Timestamp) (next : Next) (log' : L) : Prop :=
  match next with
  | .more q => SameState log log' ∧ Sees log zone q
  | .found s => Brings log zone (.ok s) log'

section Step

variable {log log' : L} {zone : Option Timestamp}

/-- A pass that settles a mark either records it, or ends because it is on record already. -/
theorem settle_goes (h : SameState log log') {known : Statistics}
    (hlast : known.lastMark = highWater log) (hplaces : Places log zone known.currentMark) :
    (settle known).Goes log zone log' := by
  unfold settle
  split_ifs with hchanged
  · rw [Statistics.hasChanged, hlast, decide_eq_true_eq] at hchanged
    exact ⟨h, hplaces, hchanged⟩
  · rw [Statistics.hasChanged, hlast, decide_eq_true_eq, not_lt] at hchanged
    exact brings_of_sameState h hchanged hplaces

/-- A pass that is prepared computes the mark, or knows it already. -/
theorem compute_goes (hsteady : Steady log) (h : SameState log log') {known : Statistics}
    (hprepared : Prepared log zone known)
    (hhigh : known.highestSequence = (written log).assigned) :
    (compute known).Goes log zone log' := by
  unfold compute
  split_ifs with hequal hempty
  · refine settle_goes h hprepared.last ?_
    rw [show ({ known with currentMark := known.lastMark } : Statistics).currentMark =
      highWater log from hprepared.last]
    exact .caughtUp (hprepared.last.symm.trans (hequal.trans hhigh))
  · -- The mark is zero, so that there is nothing to be recorded.
    have hbehind : highWater log ≠ (written log).assigned := by
      rw [← hprepared.last, ← hhigh]
      exact hequal
    exact brings_of_sameState h hsteady.nonneg (.unassigned hbehind (hhigh.symm.trans hempty))
  · rw [hprepared.last, hhigh] at hequal
    rw [hhigh] at hempty
    exact ⟨h, hprepared, hequal, hempty⟩

variable {log₁ : L} (hsteady : Steady log) (hsame : SameState log log₁) {now : Timestamp}
include hsteady hsame

/-- The first round trip reads the mark on record and the highest position. -/
theorem reading_goes {next : Next} (hstep : step (reading zone) log₁ now = (.ok next, log')) :
    next.Goes log zone log' := by
  obtain ⟨raw, hask, hnext⟩ := reply_eq_ok hstep
  have hsame' : SameState log log' :=
    hsame.trans ⟨DetectedLog.frame_statistics hask, written_statistics hask⟩
  have hlast : raw.lastMark = highWater log := by
    rw [DetectedLog.statistics_eq hask, hsame.recorded, highWater]
  have hhigh : raw.highestSequence = (written log).assigned := by
    rw [highest_eq hask, hsame.written]
  cases zone with
  | none =>
    subst hnext
    have hprepared : Prepared log none (.ofRaw raw) := by
      refine ⟨hlast, ?_, rfl⟩
      rw [show (Statistics.ofRaw raw).safeStartMark = highWater log from hlast]
      exact .mark
    exact compute_goes hsteady hsame' hprepared hhigh
  | some z =>
    subst hnext
    exact ⟨hsame', rfl, hlast, hlast, rfl, hhigh⟩

/-- The second round trip finds where the safe zone begins, if there is one. -/
theorem locating_goes {z : Timestamp} {known : Statistics}
    (hsees : Sees log zone (locating z known)) {next : Next}
    (hstep : step (locating z known) log₁ now = (.ok next, log')) : next.Goes log zone log' := by
  obtain ⟨rfl, hlast, hstart, hcurrent, hhigh⟩ := hsees
  obtain ⟨found, hask, rfl⟩ := reply_eq_ok hstep
  have hsame' : SameState log log' :=
    hsame.trans ⟨DetectedLog.frame_earliest hask, written_earliest hask⟩
  have hkept := hsame.kept hsteady.kept
  cases found with
  | some p =>
    have hleast := earliest_some hkept hask
    rw [hsame.written] at hleast
    refine compute_goes hsteady hsame' ⟨hlast, ?_, hcurrent⟩ hhigh
    simp only [enterZone, hlast]
    exact .zone hleast
  | none =>
    have hquiet := earliest_none hkept hask
    rw [hsame.written] at hquiet
    refine compute_goes hsteady hsame' ⟨hlast, ?_, hcurrent⟩ hhigh
    simp only [enterZone, hstart]
    exact .quiet hquiet

/-- The search for the first gap ends at the end of the first run, or tells that there is none. -/
theorem scanning_goes {known : Statistics} (hsees : Sees log zone (scanning known)) {next : Next}
    (hstep : step (scanning known) log₁ now = (.ok next, log')) : next.Goes log zone log' := by
  obtain ⟨hprepared, hscans⟩ := hsees
  obtain ⟨found, hask, rfl⟩ := reply_eq_ok hstep
  have hsame' : SameState log log' :=
    hsame.trans ⟨DetectedLog.frame_firstGap hask, written_firstGap hask⟩
  have hkept := hsame.kept hsteady.kept
  cases found with
  | some p =>
    have hrun := firstGap_some hkept hask
    rw [hsame.written] at hrun
    exact settle_goes hsame' hprepared.last (.run hscans hprepared.start hrun)
  | none =>
    have hgapless := firstGap_none hkept hask
    rw [hsame.written] at hgapless
    exact ⟨hsame', hprepared, hscans, hgapless⟩

/-- Without a gap, the run ends at the highest committed position. Without any committed position
the mark falls back to the one on record. -/
theorem measuring_goes {known : Statistics} (hsees : Sees log zone (measuring known)) {next : Next}
    (hstep : step (measuring known) log₁ now = (.ok next, log')) : next.Goes log zone log' := by
  obtain ⟨hprepared, hscans, hgapless⟩ := hsees
  obtain ⟨found, hask, rfl⟩ := reply_eq_ok hstep
  have hsame' : SameState log log' :=
    hsame.trans ⟨DetectedLog.frame_maxCommitted hask, written_maxCommitted hask⟩
  have hkept := hsame.kept hsteady.kept
  cases found with
  | some p =>
    have hgreatest := maxCommitted_some hkept hask
    rw [hsame.written] at hgreatest
    exact settle_goes hsame' hprepared.last
      (.run hscans hprepared.start (hgapless.endsRun hgreatest))
  | none =>
    have hbelow := maxCommitted_none hkept hask
    rw [hsame.written] at hbelow
    have hnonneg := hsteady.nonneg
    have hfall : (fallBack known).currentMark = highWater log := by
      have hlast := hprepared.last
      have hcurrent := hprepared.current
      unfold fallBack
      split_ifs with hpos
      · exact hlast
      · rw [hcurrent]
        have : ¬ 0 < known.lastMark := fun hlt => hpos ⟨hcurrent, hlt⟩
        lia
    refine settle_goes hsame' ?_ ?_
    · unfold fallBack
      split_ifs <;> exact hprepared.last
    · rw [hfall]
      exact .nothing hscans hprepared.start hbelow

omit hsteady in
/-- Recording the mark changes the mark on record and nothing else. -/
theorem persisting_goes {known : Statistics} (hsees : Sees log zone (persisting known))
    {next : Next} (hstep : step (persisting known) log₁ now = (.ok next, log')) :
    next.Goes log zone log' := by
  obtain ⟨updated, hpersist, rfl⟩ := reply_eq_ok hstep
  obtain ⟨hkept, hrecorded, -⟩ := LawfulLog.persist_ok hpersist
  obtain ⟨hplaces, hhigher⟩ := hsees
  refine ⟨hplaces, hkept ∘ hsame.kept, ?_, (written_persist hpersist).trans hsame.written⟩
  rw [hrecorded, hsame.recorded, max_eq_right hhigher.le]

/-- Every round trip of a pass leads on rightly. -/
theorem step_goes {p : Pass} (hsees : Sees log zone p) {next : Next}
    (hstep : step p log₁ now = (.ok next, log')) : next.Goes log zone log' := by
  cases p with
  | reading z =>
    obtain rfl : z = zone := hsees
    exact reading_goes hsteady hsame hstep
  | locating z known => exact locating_goes hsteady hsame hsees hstep
  | scanning known => exact scanning_goes hsteady hsame hsees hstep
  | measuring known => exact measuring_goes hsteady hsame hsees hstep
  | persisting known => exact persisting_goes hsame hsees hstep

omit hsteady in
/-- A round trip that fails changes nothing. -/
theorem sameState_of_failed {p : Pass} {fault : Fault}
    (hstep : step p log₁ now = (.error fault, log')) : SameState log log' := by
  refine hsame.trans ?_
  cases p with
  | reading zone =>
    have hask := reply_eq_error hstep
    exact ⟨DetectedLog.frame_statistics hask, written_statistics hask⟩
  | locating zone known =>
    have hask := reply_eq_error hstep
    exact ⟨DetectedLog.frame_earliest hask, written_earliest hask⟩
  | scanning known =>
    have hask := reply_eq_error hstep
    exact ⟨DetectedLog.frame_firstGap hask, written_firstGap hask⟩
  | measuring known =>
    have hask := reply_eq_error hstep
    exact ⟨DetectedLog.frame_maxCommitted hask, written_maxCommitted hask⟩
  | persisting known =>
    have hask := reply_eq_error hstep
    exact ⟨LawfulLog.persist_error hask, written_persist hask⟩

end Step

/-- A pass that nobody interrupts puts the mark to its place, whatever was committed. -/
theorem run_brings {log : L} (hsteady : Steady log) (zone : Option Timestamp) (now : Timestamp) :
    Brings log zone (run (reading zone) log now).1 (run (reading zone) log now).2 := by
  refine run_induction (I := fun p log₁ => SameState log log₁ ∧ Sees log zone p)
    (Q := Brings log zone) ?_ ?_ ?_ (reading zone) log ⟨.refl log, rfl⟩
  · exact fun p q log₁ log₂ hi hstep => step_goes hsteady hi.1 hi.2 hstep
  · exact fun p s log₁ log₂ hi hstep => step_goes hsteady hi.1 hi.2 hstep
  · exact fun p fault log₁ log₂ hi hstep => sameState_of_failed hi.1 hstep

/-- A pass that nobody interrupts ends rightly, whether it succeeds or fails. -/
theorem run_leaves {log : L} (hsane : Sane log) (zone : Option Timestamp) (now : Timestamp) :
    Leaves log zone (run (reading zone) log now).1 (run (reading zone) log now).2 := by
  have hbrings := run_brings hsane.steady zone now
  cases hresult : (run (reading zone) log now).1 with
  | error fault =>
    rw [hresult] at hbrings
    exact hbrings
  | ok s =>
    rw [hresult] at hbrings
    obtain ⟨hplaces, hkept, hrecorded, hwritten⟩ := hbrings
    have hfinds := hplaces.finds hsane
    rw [max_eq_right hfinds.le] at hrecorded
    exact ⟨hfinds, hkept, hrecorded, hwritten⟩

/-- A log that stays the same stays in order. -/
theorem Sane.of_sameState {log log' : L} (h : Sane log) (hs : SameState log log') : Sane log' := by
  refine ⟨hs.kept h.kept, ?_, ?_⟩
  · rw [hs.written]; exact h.assigned
  · rw [highWater, hs.recorded, hs.written]; exact h.mark

/-- A pass leaves a log in order, whether it succeeds or fails. -/
theorem Sane.of_leaves {log log' : L} {zone : Option Timestamp} {outcome : Outcome Statistics}
    (h : Sane log) (hl : Leaves log zone outcome log') : Sane log' := by
  cases outcome with
  | error fault => exact h.of_sameState hl
  | ok s =>
    obtain ⟨hfinds, hkept, hrecorded, hwritten⟩ := hl
    refine ⟨hkept h.kept, ?_, ?_⟩
    · rw [hwritten]; exact h.assigned
    · rw [highWater, hrecorded, Function.update_self, hwritten]
      rcases hfinds.eq_or_mem with hstays | hmem
      · rw [hstays]; exact h.mark
      · exact .inr hmem

/-! ## A pass over the whole of a log in memory -/

section Memory

open MemoryLog

/-- Where a pass over the whole log may put the mark: where it is, or at the end of the first run
of committed positions from there on. -/
def Placed (log : MemoryLog) (p : Position) : Prop :=
  p = log.mark ∨ EndsRun log.committed log.mark p

/-- The mark is never put below the one on record. -/
theorem Placed.le {log : MemoryLog} {p : Position} (h : Placed log p) : log.mark ≤ p := by
  rcases h with rfl | h
  · exact le_refl _
  · exact h.above

/-- What a pass over the whole of a log has done to it at its end. -/
def Ended (log : MemoryLog) (outcome : Outcome Statistics) (log' : MemoryLog) : Prop :=
  match outcome with
  | .ok s =>
    log'.highest = log.highest ∧ log'.events = log.events ∧ log'.mark = s.currentMark ∧
      Placed log s.currentMark
  | .error _ => SameContents log log'

/-- A sound log is in order for detection. -/
theorem sane_of_sound {log : MemoryLog} (h : log.Sound) : Sane log :=
  ⟨h.ascending, h.assigned, h.mark⟩

/-- A round trip leaves the events as they are, and unless it ends the pass with a result, it
leaves all contents. -/
theorem contents_of_step {p : Pass} {log log' : MemoryLog} {now : Timestamp}
    {outcome : Outcome Next} (h : step p log now = (outcome, log')) :
    (log'.highest = log.highest ∧ log'.events = log.events) ∧
      ((∀ s, outcome ≠ .ok (.found s)) → SameContents log log') := by
  have hanswer {α β : Type} {answer : Outcome α × MemoryLog} {k : α → β} {b : Outcome β}
      (h : reply answer k = (b, log')) : answer = (answer.1, log') := by
    have hlog : answer.2 = log' := congrArg Prod.snd h
    exact Prod.ext rfl hlog
  have hask (hs : SameContents log log') :
      (log'.highest = log.highest ∧ log'.events = log.events) ∧
        ((∀ s, outcome ≠ .ok (.found s)) → SameContents log log') :=
    ⟨⟨hs.highest, hs.events⟩, fun _ => hs⟩
  cases p with
  | reading zone => exact hask (sameContents_of_ask (hanswer h))
  | locating zone known => exact hask (sameContents_of_ask (hanswer h))
  | scanning known => exact hask (sameContents_of_ask (hanswer h))
  | measuring known => exact hask (sameContents_of_ask (hanswer h))
  | persisting known =>
    cases outcome with
    | error fault => exact hask (sameContents_of_persist (reply_eq_error h))
    | ok next =>
      obtain ⟨updated, hpersist, rfl⟩ := reply_eq_ok h
      obtain ⟨hhigh, hevents, -⟩ := persist_eq_ok hpersist
      exact ⟨⟨hhigh, hevents⟩, fun hfound => absurd rfl (hfound _)⟩

/-- What a pass over the whole log finds is a place for the mark. -/
theorem Finds.placed {log : MemoryLog} {p : Position} (h : Finds log none p) : Placed log p := by
  cases h with
  | caughtUp h => exact .inl rfl
  | run hs h =>
    cases hs with
    | mark => exact .inr h
  | nothing hs h => exact .inl rfl

/-- A pass over the whole of a sound log that nobody interrupts ends rightly, whether it succeeds
or fails. -/
theorem detect_spec {log : MemoryLog} (h : log.Sound) (now : Timestamp) :
    Ended log (detect log now).1 (detect log now).2 := by
  have hleaves : Leaves log none (detect log now).1 (detect log now).2 :=
    run_leaves (sane_of_sound h) none now
  have hcontents : (∀ fault, (detect log now).1 = .error fault →
      SameContents log (detect log now).2) ∧ (detect log now).2.highest = log.highest ∧
        (detect log now).2.events = log.events := by
    refine run_induction (I := fun _ log₁ => SameContents log log₁)
      (Q := fun outcome log' => (∀ fault, outcome = .error fault → SameContents log log') ∧
        log'.highest = log.highest ∧ log'.events = log.events)
      ?_ ?_ ?_ (reading none) log (.refl log)
    · intro p q log₁ log₂ hsame hstep
      exact hsame.trans ((contents_of_step hstep).2 (by simp))
    · intro p s log₁ log₂ hsame hstep
      obtain ⟨hhigh, hevents⟩ := (contents_of_step hstep).1
      exact ⟨by simp, hhigh.trans hsame.highest, hevents.trans hsame.events⟩
    · intro p fault log₁ log₂ hsame hstep
      have hsame' := hsame.trans ((contents_of_step hstep).2 (by simp))
      exact ⟨fun _ _ => hsame', hsame'.highest, hsame'.events⟩
  obtain ⟨hfailed, hhigh, hevents⟩ := hcontents
  cases hresult : (detect log now).1 with
  | error fault => exact hfailed fault hresult
  | ok s =>
    rw [hresult] at hleaves
    obtain ⟨hfinds, -, hrecorded, -⟩ := hleaves
    refine ⟨hhigh, hevents, ?_, hfinds.placed⟩
    exact (congrFun hrecorded ShardName.highWater.identity).trans (Function.update_self ..)

end Memory

end Pass

end Tidemark
