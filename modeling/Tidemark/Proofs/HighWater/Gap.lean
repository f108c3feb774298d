import Tidemark.Proofs.HighWater.Safety
import Tidemark.Proofs.Log.Searched

/-!
# Searching for a gap while others write

The search for a gap takes two round trips: only when no gap is found does it ask for the highest
committed position. `findGapAmid` is the search between whose round trips others write. It is the
search of a pass (`Pass.exists_amid_of_measured`), and `findGap` is the case in which nobody writes.

The two answers may belong to different states of the log. What is found covers everything from a
committed start on exactly if the writers have not left a gap where there was none
(`covered_iff_of_findGapAmid`). They do as soon as an event is committed above a position that was
reserved during the search.
-/

namespace Tidemark

open LogView SearchedLog

section Amid

variable {L : Type} [EventLog L]

/-- The search for a gap between whose round trips others write, so that the second one is made of
what the writers have made of the log, at a later time. -/
def findGapAmid (writers : L → L) (later : Timestamp) (start : Position) :
    LogCall L (Option Position) :=
  fun log now =>
    match EventLog.findFirstGap start log now with
    | (.ok none, log) => EventLog.findMaxCommitted start (writers log) later
    | answer => answer

/-- The search for a gap is the one between whose round trips nobody writes. -/
theorem findGap_eq_amid (start : Position) (log : L) (now : Timestamp) :
    findGap start log now = findGapAmid id now start log now := rfl

/-- A search that found a position found it either behind a first gap, or as the highest one after
no gap had been found. -/
theorem findGapAmid_eq_ok {writers : L → L} {later now : Timestamp} {start m : Position}
    {log log' : L} (h : findGapAmid writers later start log now = (.ok (some m), log')) :
    EventLog.findFirstGap start log now = (.ok (some m), log') ∨
      ∃ log₁, EventLog.findFirstGap start log now = (.ok none, log₁) ∧
        EventLog.findMaxCommitted start (writers log₁) later = (.ok (some m), log') := by
  unfold findGapAmid at h
  split at h
  · exact .inr ⟨_, ‹_›, h⟩
  · exact .inl h

/-- A pass that goes on from looking for a gap to looking for the highest position, with others
writing in between, settles what the search amid these writers finds. -/
theorem Pass.exists_amid_of_measured {writers : L → L} {known : Statistics} {next : Pass.Next}
    {log log₁ log' : L} {now later : Timestamp}
    (hscan : step (scanning known) log now = (.ok (.more (measuring known)), log₁))
    (hmeasure : step (measuring known) (writers log₁) later = (.ok next, log')) :
    ∃ found, findGapAmid writers later known.safeStartMark log now = (.ok found, log') ∧
      next = settle (found.elim (fallBack known) fun m => { known with currentMark := m }) := by
  obtain ⟨gap, hgap, hmore⟩ := reply_eq_ok hscan
  obtain ⟨found, hfound, hnext⟩ := reply_eq_ok hmeasure
  cases gap with
  | some m =>
    -- A pass that has found a gap does not go on to look for the highest position.
    have hrank := rank_of_settle hmore
    cases hrank
  | none =>
    refine ⟨found, ?_, ?_⟩
    · simp only [findGapAmid, hgap]
      exact hfound
    · cases found <;> exact hnext.symm

variable [SearchedLog L]

/-- What a search from a committed start finds while others write covers everything from the start
on exactly if the writers have not left a gap where there was none. Whatever it passes over lies
above all that was committed when the search began. -/
theorem covered_iff_of_findGapAmid {writers : L → L} {start m : Position} {log log' : L}
    {now later : Timestamp} (hkept : Kept log)
    (hwriters : ∀ log, Relation.ReflTransGen Wrote log (writers log))
    (hstart : start ∈ (written log).committed)
    (h : findGapAmid writers later start log now = (.ok (some m), log')) :
    ((∀ p, start ≤ p → p ≤ m → p ∈ (written log').committed) ↔
        (Gapless (written log).committed start → Gapless (written log').committed start)) ∧
      ∀ p, start ≤ p → p ≤ m → p ∉ (written log').committed →
        ∀ q ∈ (written log).committed, q < p := by
  rcases findGapAmid_eq_ok h with hgap | ⟨log₁, hnone, hmax⟩
  · -- The gap was found at once, so that both answers are the same and nobody has written.
    have hrun := firstGap_some hkept hgap
    rw [written_firstGap hgap]
    have hcovered : ∀ p, start ≤ p → p ≤ m → p ∈ (written log).committed := fun p hsp hpm =>
      hrun.covers hstart (le_refl _) hsp hpm
    exact ⟨iff_of_true hcovered id, fun p hsp hpm hp => absurd (hcovered p hsp hpm) hp⟩
  · have hgapless := firstGap_none hkept hnone
    have hkept' : Kept (writers log₁) :=
      kept_of_writes (hwriters log₁) ((DetectedLog.frame_firstGap hnone).kept hkept)
    have hsubset : (written log).committed ⊆ (written (writers log₁)).committed := by
      rw [← written_firstGap hnone]
      exact subset_of_writes (hwriters log₁)
    rw [written_maxCommitted hmax]
    have hgreatest := maxCommitted_some hkept' hmax
    refine ⟨?_, fun p hsp hpm hp q hq => ?_⟩
    · rw [covered_iff_gapless (hsubset hstart) hgreatest]
      exact ⟨fun hlater _ => hlater, fun hlater => hlater hgapless⟩
    · -- Nothing was missing up to `q` when the search began.
      by_contra hpq
      exact hp (hsubset (hgapless.covers hstart (le_refl _) hsp hq (not_lt.mp hpq)))

end Amid

namespace MemoryLog

/-- What becomes of a log to which an entry is appended, if there is room for it. -/
def appending (e : Entry) (log : MemoryLog) : MemoryLog :=
  match log.append e with
  | .ok (_, log) => log
  | .error _ => log

/-- What becomes of a log in which a position is reserved before an entry is appended. -/
def overtaking (e : Entry) (log : MemoryLog) : MemoryLog :=
  match log.reserve with
  | .ok (_, log) => log.appending e
  | .error _ => log

/-- Whoever appends an entry is a writer. -/
theorem writes_appending (e : Entry) (log : MemoryLog) :
    Relation.ReflTransGen Wrote log (log.appending e) := by
  unfold appending
  split
  · exact .single (.appended e ‹_›)
  · exact .refl

/-- Whoever reserves a position and appends an entry after it is a writer. -/
theorem writes_overtaking (e : Entry) (log : MemoryLog) :
    Relation.ReflTransGen Wrote log (log.overtaking e) := by
  unfold overtaking
  split
  · exact .head (.reserved ‹_›) (writes_appending e _)
  · exact .refl

/-- A search during which an event is appended finds it, and covers everything up to it. -/
theorem covered_of_appending :
    ∃ log log' : MemoryLog, log.committed = [1] ∧
      findGapAmid (appending blank) ⟨1, false⟩ 1 log ⟨0, false⟩ = (.ok (some 2), log') ∧
        ∀ p, 1 ≤ p → p ≤ 2 → p ∈ log'.committed := by
  let log : MemoryLog := { highest := 1, events := [(1, blank)] }
  have hfind : findGapAmid (appending blank) ⟨1, false⟩ 1 log ⟨0, false⟩ =
      (.ok (some 2), { highest := 2, events := [(1, blank), (2, blank)], calls := 2 }) := by
    rfl
  have hkept : Ascending log.events := List.pairwise_singleton _ _
  have hcovered := covered_iff_of_findGapAmid hkept (writes_appending blank) (by decide) hfind
  exact ⟨log, _, rfl, hfind, hcovered.1.mpr fun _ => by decide⟩

/-- A search during which a position is reserved and an event appended after it finds that event,
while the position before it is open. -/
theorem exists_overtaken_search :
    ∃ (writers : MemoryLog → MemoryLog) (log log' : MemoryLog),
      (∀ log, Relation.ReflTransGen Wrote log (writers log)) ∧ Ascending log.events ∧
        1 ∈ log.committed ∧
          findGapAmid writers ⟨1, false⟩ 1 log ⟨0, false⟩ = (.ok (some 3), log') ∧
            log'.Open 2 := by
  refine ⟨overtaking blank, { highest := 1, events := [(1, blank)] },
    { highest := 3, events := [(1, blank), (3, blank)], calls := 2 }, writes_overtaking blank,
    List.pairwise_singleton _ _, ?_, ?_, ?_, ?_⟩
  · decide
  · rfl
  · decide
  · decide

end MemoryLog

end Tidemark
