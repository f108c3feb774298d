import Tidemark.Proofs.HighWater.Pass

/-!
# What a high water mark promises

A `History` is what becomes of an empty log in memory under writers and detection passes that do
not interrupt each other. Every pass that succeeds has recorded the mark that it returns. Up to
that mark everything is committed or given up (`Sighting.Covered`), unless some pass of the history
has set the first mark while position 1 was still open (`Sighting.Leaps`): the search for gaps
begins at the first committed position, and does not see what is missing before it.
-/

namespace Tidemark.MemoryLog

/-- A detection pass that succeeded. -/
structure Sighting where
  /-- The log before the pass. -/
  before : MemoryLog
  /-- What the pass returned. -/
  found : Statistics
  /-- The log after the pass. -/
  after : MemoryLog

/-- The histories of a log that starts empty, with the passes that succeeded, the last one first. -/
inductive History : MemoryLog → List Sighting → Prop where
  | empty : History {} []
  /-- A writer makes a call. -/
  | wrote {log log' : MemoryLog} {seen : List Sighting} (h : History log seen)
      (hw : Wrote log log') : History log' seen
  /-- Some of the next calls are made to fail. -/
  | disturbed {log : MemoryLog} {seen : List Sighting} (h : History log seen) (n m : Nat) :
    History { log with failNext := n, failPersists := m } seen
  /-- A pass succeeds. -/
  | detected {log log' : MemoryLog} {seen : List Sighting} {s : Statistics} (now : Timestamp)
      (h : History log seen) (hd : detect log now = (.ok s, log')) :
    History log' (⟨log, s, log'⟩ :: seen)
  /-- A pass fails. -/
  | failed {log log' : MemoryLog} {seen : List Sighting} {fault : Fault} (now : Timestamp)
      (h : History log seen) (hd : detect log now = (.error fault, log')) : History log' seen

namespace Sighting

/-- Everything up to the mark that was found is committed or given up. -/
def Covered (d : Sighting) : Prop :=
  ∀ p, 1 ≤ p → p ≤ d.found.currentMark → p ∈ d.after.committed

/-- The pass set the first mark while nothing was committed at position 1. -/
structure Leaps (d : Sighting) : Prop where
  unmarked : d.before.mark = 0
  marked : 0 < d.found.currentMark
  uncommitted : 1 ∉ d.before.committed

/-- What is true of a pass over a sound log that succeeded. -/
structure Ends (d : Sighting) : Prop where
  events : d.after.events = d.before.events
  recorded : d.after.mark = d.found.currentMark
  placed : Pass.Placed d.before d.found.currentMark

/-- A pass leaves the committed positions as they are. -/
theorem Ends.committed {d : Sighting} (h : d.Ends) : d.after.committed = d.before.committed := by
  unfold MemoryLog.committed
  rw [h.events]

/-- If everything is covered up to the mark before a pass that does not leap, then everything is
covered up to the mark that it finds. -/
theorem Ends.covered {d : Sighting} (h : d.Ends)
    (hmark : d.before.mark = 0 ∨ d.before.mark ∈ d.before.committed)
    (hcovered : ∀ p, 1 ≤ p → p ≤ d.before.mark → p ∈ d.before.committed) (hleap : ¬ d.Leaps) :
    d.Covered := by
  intro p hp hpM
  rw [h.committed]
  rcases h.placed with hstays | hends
  · exact hcovered p hp (hstays ▸ hpM)
  rcases hmark with hzero | hmem
  · -- The run starts at position 1, since the pass does not leap.
    have hone : 1 ∈ d.before.committed := by
      by_contra hopen
      exact hleap ⟨hzero, lt_of_lt_of_le (by decide) (le_trans hp hpM), hopen⟩
    exact hends.covers hone (by rw [hzero]; decide) hp hpM
  · -- The run starts at the mark on record, up to which everything is covered already.
    rcases le_total p d.before.mark with hle | hle
    · exact hcovered p hp hle
    · exact hends.covers hmem (le_refl _) hle hpM

/-- A pass that covers everything up to its mark has not leapt. -/
theorem Ends.not_leaps {d : Sighting} (h : d.Ends) (hcovered : d.Covered) : ¬ d.Leaps := by
  intro hleap
  have hone := hcovered 1 (le_refl _) (Int.add_one_le_iff.mpr hleap.marked)
  rw [h.committed] at hone
  exact hleap.uncommitted hone

end Sighting

/-- What holds along every history: the log is sound, and every pass ended rightly and has left
what it saw as committed to the log. -/
structure Upheld (log : MemoryLog) (seen : List Sighting) : Prop where
  sound : log.Sound
  ends : ∀ d ∈ seen, d.Ends
  kept : ∀ d ∈ seen, ∀ p ∈ d.after.committed, p ∈ log.committed
  covered : (∀ d ∈ seen, ¬ d.Leaps) →
    (∀ p, 1 ≤ p → p ≤ log.mark → p ∈ log.committed) ∧ ∀ d ∈ seen, d.Covered

/-- What holds along every history stays true as the log grows. -/
theorem Upheld.of_grown {log log' : MemoryLog} {seen : List Sighting} (h : Upheld log seen)
    (hg : Grown log log') : Upheld log' seen where
  sound := h.sound.of_grown hg
  ends := h.ends
  kept d hd p hp := hg.subset p (h.kept d hd p hp)
  covered hleap := by
    obtain ⟨hlog, hseen⟩ := h.covered hleap
    exact ⟨fun p hp hpM => hg.subset p (hlog p hp (hg.mark ▸ hpM)), hseen⟩

/-- What holds along every history stays true while the contents of the log stay. -/
theorem Upheld.of_sameContents {log log' : MemoryLog} {seen : List Sighting} (h : Upheld log seen)
    (hs : SameContents log log') : Upheld log' seen :=
  h.of_grown ⟨hs.highest.ge, .inl hs.events, hs.progress⟩

/-- What holds along every history holds after a pass that succeeds. -/
theorem Upheld.detected {log log' : MemoryLog} {seen : List Sighting} (h : Upheld log seen)
    {s : Statistics} {now : Timestamp} (hd : detect log now = (.ok s, log')) :
    Upheld log' (⟨log, s, log'⟩ :: seen) := by
  have hspec := Pass.detect_spec h.sound now
  rw [hd] at hspec
  obtain ⟨hhigh, hevents, hmark, hplaced⟩ := hspec
  -- A pass changes the mark on record and commits nothing.
  have hend : Sighting.Ends ⟨log, s, log'⟩ := ⟨hevents, hmark, hplaced⟩
  have hcommitted : log'.committed = log.committed := hend.committed
  refine ⟨⟨?_, ?_, ?_, ?_⟩, ?_, ?_, fun hleap => ?_⟩
  · rw [hevents]; exact h.sound.ascending
  · rw [hcommitted, hhigh]; exact h.sound.assigned
  · rw [hmark, hcommitted]
    rcases hplaced with hstays | hends
    · rw [hstays]; exact h.sound.mark
    · exact .inr hends.mem
  · rw [hhigh]; exact h.sound.counted
  · exact List.forall_mem_cons.mpr ⟨hend, h.ends⟩
  · refine List.forall_mem_cons.mpr ⟨fun p hp => hp, fun d hd p hp => ?_⟩
    rw [hcommitted]
    exact h.kept d hd p hp
  · rw [List.forall_mem_cons] at hleap
    obtain ⟨hlog, hseen⟩ := h.covered hleap.2
    have hnew := hend.covered h.sound.mark hlog hleap.1
    exact ⟨fun p hp hpM => hnew p hp (hmark ▸ hpM), List.forall_mem_cons.mpr ⟨hnew, hseen⟩⟩

/-- Every history is upheld. -/
theorem History.upheld {log : MemoryLog} {seen : List Sighting} (h : History log seen) :
    Upheld log seen := by
  induction h with
  | empty =>
    refine ⟨sound_empty, by simp, by simp, fun _ => ⟨fun p hp hpM => ?_, by simp⟩⟩
    have : p ≤ 0 := hpM
    lia
  | wrote _ hw ih => exact ih.of_grown (hw.grown ih.sound)
  | disturbed _ n m ih => exact ih.of_sameContents ⟨rfl, rfl, rfl⟩
  | detected now _ hd ih => exact ih.detected hd
  | failed now _ hd ih =>
    have hspec := Pass.detect_spec ih.sound now
    rw [hd] at hspec
    exact ih.of_sameContents hspec

/-- Every pass that succeeds has recorded the mark that it returns. All passes of a history cover
everything up to the marks that they find exactly if none of them leaps, and then no position that
is still open, so that an event may yet be committed there, lies at or below any mark found. -/
theorem marks_covered_iff {log : MemoryLog} {seen : List Sighting} (h : History log seen) :
    (∀ d ∈ seen, d.after.mark = d.found.currentMark) ∧
      ((∀ d ∈ seen, d.Covered) ↔ ∀ d ∈ seen, ¬ d.Leaps) ∧
        ((∀ d ∈ seen, ¬ d.Leaps) → ∀ d ∈ seen, ∀ p, log.Open p → d.found.currentMark < p) := by
  have hup := h.upheld
  refine ⟨fun d hd => (hup.ends d hd).recorded, ⟨fun hcovered d hd => ?_, fun hleap => ?_⟩,
    fun hleap d hd p hopen => ?_⟩
  · exact (hup.ends d hd).not_leaps (hcovered d hd)
  · exact (hup.covered hleap).2
  · by_contra hle
    -- What is committed once stays so, and an open position is not.
    have hcovered := (hup.covered hleap).2 d hd p hopen.assigned.1 (not_lt.mp hle)
    exact hopen.uncommitted (hup.kept d hd p hcovered)

/-- An event without contents. -/
def blank : Entry := ⟨"", [], ⟨0, false⟩, false⟩

/-- Position 2 is reserved between two events that are committed. A pass, which does not leap, finds
the mark 1: it covers its mark, and every position that is still open lies above. -/
theorem marks_covered_below_open :
    ∃ log d, History log [d] ∧ log.Open 2 ∧ d.found.highestSequence = 3 ∧
      d.found.currentMark = 1 ∧ d.Covered ∧ ∀ p, log.Open p → d.found.currentMark < p := by
  let log : MemoryLog := { highest := 3, events := [(1, blank), (3, blank)] }
  let now : Timestamp := ⟨0, false⟩
  have hone : Wrote {} { highest := 1, events := [(1, blank)] } := .appended (p := 1) blank rfl
  have htwo : Wrote { highest := 1, events := [(1, blank)] }
      { highest := 2, events := [(1, blank)] } := .reserved (p := 2) rfl
  have hthree : Wrote { highest := 2, events := [(1, blank)] } log :=
    .appended (p := 3) blank rfl
  let d : Sighting := ⟨log, ⟨0, 3, 1, 0, now, some now⟩, (detect log now).2⟩
  have hd : detect log now = (.ok d.found, d.after) := Prod.ext (by decide +kernel) rfl
  have h : History d.after [d] :=
    (((History.empty.wrote hone).wrote htwo).wrote hthree).detected now hd
  have hcommitted : 1 ∈ log.committed := by decide
  have hleaps : ∀ x ∈ [d], ¬ x.Leaps :=
    List.forall_mem_singleton.mpr fun hleaps => hleaps.uncommitted hcommitted
  obtain ⟨-, hcovered, hopen⟩ := marks_covered_iff h
  have hseen : d ∈ [d] := List.mem_singleton_self d
  refine ⟨_, d, h, ⟨?_, ?_⟩, rfl, rfl, hcovered.mpr hleaps d hseen, hopen hleaps d hseen⟩
  · decide +kernel
  · decide +kernel

/-- Two positions are reserved and an event is committed at the second one. The next pass leaps: it
sets the mark to 2 while position 1 is open. -/
theorem exists_leap :
    ∃ log d, History log [d] ∧ log.Open 1 ∧ d.found.currentMark = 2 ∧ d.Leaps ∧ ¬ d.Covered := by
  let log : MemoryLog := { highest := 2, events := [(2, blank)] }
  let now : Timestamp := ⟨0, false⟩
  have hw : Wrote {} { highest := 1 } := .reserved (p := 1) rfl
  have hw' : Wrote { highest := 1 } { highest := 2 } := .reserved (p := 2) rfl
  have hc : Wrote { highest := 2 } log := .committed (p := 2) blank ⟨by decide, by decide⟩
  have hd : detect log now = (.ok ⟨0, 2, 2, 0, now, some now⟩, (detect log now).2) :=
    Prod.ext (by decide +kernel) rfl
  have h := (((History.empty.wrote hw).wrote hw').wrote hc).detected now hd
  have hleaps : Sighting.Leaps ⟨log, ⟨0, 2, 2, 0, now, some now⟩, (detect log now).2⟩ :=
    ⟨by decide, by decide, by decide⟩
  refine ⟨_, _, h, ⟨?_, ?_⟩, rfl, hleaps, fun hcovered => ?_⟩
  · decide +kernel
  · decide +kernel
  · exact (h.upheld.ends _ (List.mem_singleton_self _)).not_leaps hcovered hleaps

end Tidemark.MemoryLog
