import Mathlib.Data.Int.LeastGreatest
import Mathlib.Order.Bounds.Basic
import Tidemark.HighWater.Pass
import Tidemark.Proofs.Log.Overwriting

/-!
# What the search for a gap finds

The search for a gap makes two enquiries: it walks over the committed positions from a start on, and
asks for the last one of them only if the walk has found nothing. In a log in memory that nobody
writes to in between, both together find the end of the first run of committed positions, be it
followed by other runs or not (`MemoryLog.findGap_finds`). Positions below zero may be committed as
well. Where the search begins at zero or above, it does not walk over them, and no distance between
two of the positions that it does walk over leaves the 64-bit range.
-/

namespace Tidemark

/-! ## Runs of positions -/

/-- Two positions begin and end a run: everything between them is among some positions, from a start
on, and their neighbours outside are not. -/
structure IsRun (ps : List Position) (start a p : Position) : Prop where
  above : start ≤ a
  le : a ≤ p
  covers : ∀ q, a ≤ q → q ≤ p → q ∈ ps
  before : start < a → a - 1 ∉ ps
  gap : p + 1 ∉ ps

/-- A run that begins no later than any other one. -/
structure IsFirstRun (ps : List Position) (start a p : Position) : Prop
    extends IsRun ps start a p where
  first : ∀ b r, IsRun ps start b r → a ≤ b

variable {ps : List Position} {start p : Position}

/-- Runs that begin at the same position end at the same one. -/
theorem IsRun.end_unique {a r : Position} (h : IsRun ps start a p) (h' : IsRun ps start a r) :
    p = r := by
  have hap := h.le
  have har := h'.le
  rcases lt_trichotomy p r with hlt | heq | hlt
  · exact absurd (h'.covers (p + 1) (by lia) (by lia)) h.gap
  · exact heq
  · exact absurd (h.covers (r + 1) (by lia) (by lia)) h'.gap

/-- There is only one first run. -/
theorem IsFirstRun.end_unique {a b r : Position} (h : IsFirstRun ps start a p)
    (h' : IsFirstRun ps start b r) : p = r := by
  obtain rfl : a = b := le_antisymm (h.first b r h'.toIsRun) (h'.first a p h.toIsRun)
  exact h.toIsRun.end_unique h'.toIsRun

namespace MemoryLog

/-- What ends the first run is the lowest position whose neighbour is missing. -/
theorem EndsRun.isLeast (h : EndsRun ps start p) :
    IsLeast {q | q ∈ ps ∧ start ≤ q ∧ q + 1 ∉ ps} p := by
  refine ⟨⟨h.mem, h.above, h.gap⟩, fun q ⟨hq, hsq, hgap⟩ => ?_⟩
  by_contra hlt
  exact hgap (h.lowest q hq hsq (not_le.mp hlt))

/-- What ends the first run ends a run that begins no later than any other one. -/
theorem EndsRun.exists_isFirstRun (h : EndsRun ps start p) : ∃ a, IsFirstRun ps start a p := by
  -- The first run begins with the lowest one of the positions from the start on.
  obtain ⟨a, ⟨ha, hsa⟩, hlow⟩ := Int.exists_least_of_bdd (P := fun q => q ∈ ps ∧ start ≤ q)
    ⟨start, fun q hq => hq.2⟩ ⟨p, h.mem, h.above⟩
  refine ⟨a, ⟨hsa, hlow p ⟨h.mem, h.above⟩, fun q haq hqp => h.covers ha hsa haq hqp, ?_, h.gap⟩,
    fun b r hrun => hlow b ⟨hrun.covers b (le_refl _) hrun.le, hrun.above⟩⟩
  intro hlt hbefore
  have := hlow (a - 1) ⟨hbefore, by lia⟩
  lia

/-! ## Logs whose positions can be represented -/

/-- The events of a log are in order, at positions that fit into 64 bits. -/
structure InOrder (log : MemoryLog) : Prop where
  ascending : Ascending log.events
  fits : ∀ p ∈ log.committed, p.Fits

/-- A move writes at positions that fit into 64 bits. -/
def Move.Fits : Move → Prop
  | .write (.commit p _ _) _ | .write (.settle p) _ => p.Fits
  | _ => True

/-- A log without events is in order. -/
theorem inOrder_empty : InOrder {} := ⟨.nil, by simp [committed]⟩

/-- A log stays in order while its events stay. -/
theorem InOrder.of_events {log log' : MemoryLog} (h : log.InOrder)
    (hevents : log'.events = log.events) : log'.InOrder := by
  refine ⟨?_, ?_⟩
  · rw [hevents]
    exact h.ascending
  · rw [committed, hevents]
    exact h.fits

/-- A log stays in order if an entry is put at a position that fits into 64 bits. -/
theorem InOrder.of_put {log log' : MemoryLog} {e : Entry} (h : log.InOrder) (hp : p.Fits)
    (hevents : log'.events = put p e log.events) : log'.InOrder := by
  refine ⟨?_, fun q hq => ?_⟩
  · rw [hevents]
    exact put_ascending h.ascending
  · rw [committed, hevents, mem_fst_put] at hq
    rcases hq with rfl | hq
    · exact hp
    · exact h.fits q hq

/-- A position that is reserved fits into 64 bits. -/
theorem fits_of_reserve {log log' : MemoryLog} (h : log.reserve = .ok (p, log')) : p.Fits := by
  simp only [reserve, Position.next] at h
  split_ifs at h with hfits <;> cases h
  exact hfits

/-- A move keeps a log in order. -/
theorem InOrder.play {log : MemoryLog} (h : log.InOrder) {m : Move} (hm : m.Fits) :
    (log.play m).2.InOrder := by
  cases m with
  | raise p => exact h.of_events rfl
  | write w time =>
    cases w with
    | reserve =>
      simp only [MemoryLog.play, LogWrite.inMemory]
      split
      · obtain ⟨-, rfl⟩ := reserve_eq_ok ‹_›
        exact h.of_events rfl
      · exact h
    | append eventType data =>
      simp only [MemoryLog.play, LogWrite.inMemory]
      split
      · obtain ⟨⟨q, reserved⟩, hreserve, happend⟩ := bind_eq_ok.mp ‹_›
        obtain ⟨-, rfl⟩ := Prod.mk.inj (Except.ok.inj happend)
        obtain ⟨-, rfl⟩ := reserve_eq_ok hreserve
        exact h.of_put (fits_of_reserve hreserve) rfl
      · exact h
    | commit p eventType data => exact h.of_put hm rfl
    | settle p =>
      simp only [MemoryLog.play, LogWrite.inMemory, settle]
      split_ifs
      · exact h
      · exact h.of_put hm rfl
    | persist shard p => exact h.of_events (play_persist log shard p time).2

/-- A log is in order after any history. -/
theorem inOrder_replay {moves : ℕ → Move} (h : ∀ n, (moves n).Fits) (n : ℕ) :
    (replay moves n).InOrder := by
  induction n with
  | zero => exact inOrder_empty
  | succ n ih => exact ih.play (h n)

/-! ## The search -/

variable {log : MemoryLog}

/-- The walk from zero or above is over positions whose distances can be represented. -/
theorem InOrder.firstGap_eq (h : log.InOrder) (hstart : 0 ≤ start) :
    firstGap (log.committedFrom start) = .ok (TableLog.firstGap (log.committedFrom start)) := by
  rw [committedFrom_eq_filter h.ascending]
  refine MemoryLog.firstGap_eq ((committed_pairwise h.ascending).filter _) fun p hp => ?_
  obtain ⟨hmem, hsp⟩ := List.mem_filter.mp hp
  exact ⟨hstart.trans (by simpa using hsp), (h.fits p hmem).2⟩

/-- A search leaves the contents of a log as they are. -/
theorem sameContents_findGap (start : Position) (log : MemoryLog) (now : Timestamp) :
    SameContents log (findGap start log now).2 := by
  unfold findGap
  split
  · next log₁ hgap => exact (sameContents_of_ask hgap).trans (sameContents_of_ask Prod.mk.eta.symm)
  · exact sameContents_of_ask Prod.mk.eta.symm

/-- What a search is answered with that is not made to fail: what the walk finds, and otherwise the
last one of the positions. -/
theorem InOrder.fst_findGap (h : log.InOrder) (hstart : 0 ≤ start) (hserved : log.failNext = 0)
    (now : Timestamp) : (findGap start log now).1 = .ok
      ((TableLog.firstGap (log.committedFrom start)).or (log.committedFrom start).getLast?) := by
  have hgap : EventLog.findFirstGap start log now =
      (.ok (TableLog.firstGap (log.committedFrom start)), { log with calls := log.calls + 1 }) := by
    have hwalk := h.firstGap_eq hstart
    simp only [EventLog.findFirstGap, ask, call, if_pos hserved]
    rw [show ({ log with calls := log.calls + 1 } : MemoryLog).committedFrom start =
      log.committedFrom start from rfl, hwalk]
    rfl
  rw [findGap, hgap]
  cases TableLog.firstGap (log.committedFrom start) with
  | some p => rfl
  | none =>
    show (EventLog.findMaxCommitted start { log with calls := log.calls + 1 } now).1 =
      .ok (log.committedFrom start).getLast?
    refine fst_ask _ _ ?_ now
    exact hserved

/-- A search that is made to fail. -/
theorem fst_findGap_of_failing (hfailing : log.failNext ≠ 0) (start : Position) (now : Timestamp) :
    (findGap start log now).1 = .error (.error (.injected "find_first_gap")) := by
  have hgap : EventLog.findFirstGap start log now = (.error (.error (.injected "find_first_gap")),
      { log with calls := log.calls + 1, failNext := log.failNext - 1 }) := by
    simp only [EventLog.findFirstGap, ask, call, if_neg hfailing]
  rw [findGap, hgap]

/-- A search from zero or above in a log whose events are in order leaves its contents as they are.
Unless it is made to fail, it comes to an answer: none exactly if nothing is committed from the
start on, and otherwise the lowest committed position there whose neighbour is not committed, which
is the end of the first run. -/
theorem findGap_finds (h : log.InOrder) (hstart : 0 ≤ start) (now : Timestamp) :
    SameContents log (findGap start log now).2 ∧
      (log.failNext ≠ 0 →
        (findGap start log now).1 = .error (.error (.injected "find_first_gap"))) ∧
      (log.failNext = 0 → ∃ found, (findGap start log now).1 = .ok found ∧
        (found = none ↔ ∀ q ∈ log.committed, q < start) ∧
        ∀ p, (found = some p ↔
            IsLeast {q | q ∈ log.committed ∧ start ≤ q ∧ q + 1 ∉ log.committed} p) ∧
          (found = some p ↔ ∃ a, IsFirstRun log.committed start a p)) := by
  refine ⟨sameContents_findGap start log now, fun hfailing => fst_findGap_of_failing hfailing _ _,
    fun hserved => ⟨_, h.fst_findGap hstart hserved now, ?_⟩⟩
  cases hfound : (TableLog.firstGap (log.committedFrom start)).or
      (log.committedFrom start).getLast? with
  | none =>
    -- Not even a last position was found.
    have hlast : (log.committedFrom start).getLast? = none := (Option.or_eq_none_iff.mp hfound).2
    have hbelow := lt_of_getLast?_eq_none h.ascending hlast
    refine ⟨iff_of_true rfl hbelow, fun p => ⟨iff_of_false nofun ?_, iff_of_false nofun ?_⟩⟩
    · rintro ⟨⟨hp, hsp, -⟩, -⟩
      exact absurd (hbelow p hp) (not_lt.mpr hsp)
    · rintro ⟨a, hrun⟩
      exact absurd (hbelow a (hrun.covers a (le_refl a) hrun.le)) (not_lt.mpr hrun.above)
  | some m =>
    -- The walk and the last position together end the first run, and there is only one.
    have hrun := endsRun_of_committedFrom h.ascending (h.firstGap_eq hstart) hfound
    obtain ⟨a, hfirst⟩ := hrun.exists_isFirstRun
    refine ⟨iff_of_false nofun fun hbelow => ?_, fun p => ⟨?_, ?_⟩⟩
    · exact absurd (hbelow m hrun.mem) (not_lt.mpr hrun.above)
    · rw [Option.some.injEq]
      exact ⟨fun heq => heq ▸ hrun.isLeast, hrun.isLeast.unique⟩
    · rw [Option.some.injEq]
      exact ⟨fun heq => ⟨a, heq ▸ hfirst⟩, fun ⟨_, hp⟩ => hfirst.end_unique hp⟩

/-- Positions are committed and given up in no order, one below zero and the last one among them. A
search from 0 finds the end of the first run, which begins with 1, and a search behind this run
finds the last position, although it has no neighbour that can be represented. -/
theorem findGap_finds_of_scattered :
    let moves : ℕ → Move := fun
      | 0 => .write (.commit Position.last "e" []) default
      | 1 => .write (.commit 2 "e" []) default
      | 2 => .write (.settle 3) default
      | 3 => .write (.commit (-1) "e" []) default
      | _ => .write (.commit 1 "e" []) default
    let log := replay moves 5
    log.InOrder ∧ log.committed = [-1, 1, 2, 3, Position.last] ∧
      (findGap 0 log default).1 = .ok (some 3) ∧
      IsLeast {q | q ∈ log.committed ∧ 0 ≤ q ∧ q + 1 ∉ log.committed} 3 ∧
      (∃ a, IsFirstRun log.committed 0 a 3) ∧
      (findGap 4 log default).1 = .ok (some Position.last) ∧
      ∃ a, IsFirstRun log.committed 4 a Position.last := by
  intro moves log
  have hmoves : ∀ n, (moves n).Fits
    | 0 => (by decide : Position.last.Fits)
    | 1 => (by decide : Position.Fits 2)
    | 2 => (by decide : Position.Fits 3)
    | 3 => (by decide : Position.Fits (-1))
    | _ + 4 => (by decide : Position.Fits 1)
  have hlog : log.InOrder := inOrder_replay hmoves 5
  have hthree : (findGap 0 log default).1 = .ok (some 3) := by rfl
  have hlast : (findGap 4 log default).1 = .ok (some Position.last) := by rfl
  obtain ⟨-, -, hserved⟩ := findGap_finds hlog (le_refl 0) default
  obtain ⟨found, hfound, -, hfinds⟩ := hserved rfl
  obtain rfl := Except.ok.inj (hthree.symm.trans hfound)
  obtain ⟨-, -, hserved'⟩ := findGap_finds hlog (by decide : (0 : Position) ≤ 4) default
  obtain ⟨found', hfound', -, hfinds'⟩ := hserved' rfl
  obtain rfl := Except.ok.inj (hlast.symm.trans hfound')
  exact ⟨hlog, by rfl, hthree, (hfinds 3).1.mp rfl, (hfinds 3).2.mp rfl, hlast,
    (hfinds' _).2.mp rfl⟩

end MemoryLog

end Tidemark
