import Mathlib.Algebra.Order.Group.Int
import Tidemark.Log.Memory
import Tidemark.Proofs.Fault
import Tidemark.Proofs.Log.Rows

/-!
# The event log in memory keeps its positions in order

The events of a `MemoryLog` are stored in strictly ascending order (`Ascending`), which every write
keeps. On such a list the walk over consecutive pairs, `firstGap`, ends where the first run of
neighbours ends (`EndsRun`), and so does the whole search for a gap, `findGap`.
-/

namespace Tidemark

/-! ## Lists along which a test can only fall -/

/-- Where a test that holds at an element holds at all before it, taking elements while it holds
keeps exactly those at which it holds. -/
theorem takeWhile_eq_filter {α : Type} {P : α → Bool} :
    ∀ {l : List α}, l.Pairwise (fun a b => P b = true → P a = true) → l.takeWhile P = l.filter P
  | [], _ => rfl
  | a :: l, h => by
    rw [List.pairwise_cons] at h
    by_cases ha : P a = true
    · rw [List.takeWhile_cons_of_pos ha, List.filter_cons_of_pos ha, takeWhile_eq_filter h.2]
    · have hl : l.filter P = [] := List.filter_eq_nil_iff.mpr fun b hb hP => ha (h.1 b hb hP)
      rw [List.takeWhile_cons_of_neg ha, List.filter_cons_of_neg ha, hl]

/-- Where a test that holds at an element holds at all before it, dropping elements while it holds
keeps exactly those at which it fails. -/
theorem dropWhile_eq_filter {α : Type} {P : α → Bool} :
    ∀ {l : List α}, l.Pairwise (fun a b => P b = true → P a = true) →
      l.dropWhile P = l.filter (!P ·)
  | [], _ => rfl
  | a :: l, h => by
    rw [List.pairwise_cons] at h
    by_cases ha : P a = true
    · rw [List.dropWhile_cons_of_pos ha, List.filter_cons_of_neg (by simp [ha]),
        dropWhile_eq_filter h.2]
    · have hl : l.filter (!P ·) = l :=
        List.filter_eq_self.mpr fun b hb => by simpa using fun hP => ha (h.1 b hb hP)
      rw [List.dropWhile_cons_of_neg ha, List.filter_cons_of_pos (by simp [ha]), hl]

namespace MemoryLog

/-! ## Ascending events -/

/-- The positions of the events are strictly ascending. -/
def Ascending (events : List (Position × Entry)) : Prop := events.Pairwise (·.1 < ·.1)

/-- The positions at which something is stored after an entry has been put. -/
theorem mem_fst_put {p q : Position} {e : Entry} {events : List (Position × Entry)} :
    q ∈ (put p e events).map Prod.fst ↔ q = p ∨ q ∈ events.map Prod.fst := by
  induction events with
  | nil => simp [put]
  | cons x rest ih =>
    obtain ⟨r, f⟩ := x
    unfold put
    split_ifs with hlt heq
    · simp
    · subst heq; simp
    · simp only [List.map_cons, List.mem_cons, ih]
      exact or_left_comm

/-- Putting an entry keeps the events ascending. -/
theorem put_ascending {p : Position} {e : Entry} {events : List (Position × Entry)}
    (h : Ascending events) : Ascending (put p e events) := by
  induction events with
  | nil => simp [put, Ascending]
  | cons x rest ih =>
    obtain ⟨r, f⟩ := x
    obtain ⟨hr, hrest⟩ := List.pairwise_cons.mp h
    unfold put
    split_ifs with hlt heq
    · refine List.pairwise_cons.mpr ⟨fun y hy => ?_, h⟩
      rcases List.mem_cons.mp hy with rfl | hy
      · exact hlt
      · exact lt_trans hlt (hr y hy)
    · subst heq
      exact List.pairwise_cons.mpr ⟨hr, hrest⟩
    · refine List.pairwise_cons.mpr ⟨fun y hy => ?_, ih hrest⟩
      -- What is stored behind the first event is the new entry or was there before.
      have hmem : y.1 ∈ (put p e rest).map Prod.fst := List.mem_map_of_mem hy
      rcases mem_fst_put.mp hmem with hp | hmem
      · show r < y.1
        lia
      · obtain ⟨z, hz, hzy⟩ := List.mem_map.mp hmem
        exact hzy ▸ hr z hz

/-- A distance that can be represented is the difference. -/
theorem distance_eq_ok {p q : Position} {d : Int} (h : Position.distance p q = .ok d) :
    d = p - q := by
  unfold Position.distance at h
  split_ifs at h
  exact (Except.ok.inj h).symm

/-- Something is committed at a position exactly if the position is listed. -/
theorem isCommitted_iff {log : MemoryLog} {p : Position} :
    log.isCommitted p = true ↔ p ∈ log.committed := by
  simp [isCommitted, committed]

/-- The committed positions are strictly ascending with the events. -/
theorem committed_pairwise {log : MemoryLog} (h : Ascending log.events) :
    log.committed.Pairwise (· < ·) :=
  List.pairwise_map.mpr h

/-- The committed positions at or above a start. -/
theorem committedFrom_eq_filter {log : MemoryLog} (h : Ascending log.events) (start : Position) :
    log.committedFrom start = log.committed.filter (start ≤ ·) := by
  unfold committedFrom
  rw [dropWhile_eq_filter ((committed_pairwise h).imp fun {a b} hab hb => ?_)]
  · exact List.filter_congr fun p _ => by simp [← decide_not]
  · simp only [decide_eq_true_eq] at hb ⊢
    exact lt_trans hab hb

/-! ## The end of a run -/

/-- A position is the lowest of some positions, from a start on, whose neighbour is missing. -/
structure EndsRun (ps : List Position) (start p : Position) : Prop where
  mem : p ∈ ps
  above : start ≤ p
  gap : p + 1 ∉ ps
  lowest : ∀ q ∈ ps, start ≤ q → q < p → q + 1 ∈ ps

/-- From any of the positions on, a run has no hole before its end. -/
theorem EndsRun.covers {ps : List Position} {start p q r : Position} (h : EndsRun ps start p)
    (hq : q ∈ ps) (hsq : start ≤ q) (hqr : q ≤ r) (hrp : r ≤ p) : r ∈ ps := by
  induction r, hqr using Int.leInduction with
  | base => exact hq
  | succ r hqr ih => exact h.lowest r (ih (by lia)) (by lia) (by lia)

/-- A position whose neighbour is missing ends the run that begins with it. -/
theorem EndsRun.head {a start : Position} {rest : List Position}
    (h : (a :: rest).Pairwise (· < ·)) (hs : start ≤ a) (hgap : ∀ q ∈ rest, a + 1 < q) :
    EndsRun (a :: rest) start a := by
  refine ⟨List.mem_cons_self, hs, fun hmem => ?_, fun q hq _ hqa => ?_⟩
  · rcases List.mem_cons.mp hmem with heq | hmem
    · lia
    · exact absurd (hgap _ hmem) (lt_irrefl _)
  · rcases List.mem_cons.mp hq with heq | hmem
    · lia
    · exact absurd ((List.pairwise_cons.mp h).1 q hmem) (lt_asymm hqa)

/-- The run from the neighbour of a position on ends where the one from the position on does. -/
theorem EndsRun.cons {a b start p : Position} {rest : List Position}
    (h : EndsRun (b :: rest) start p) (hb : b = a + 1) (hlt : ∀ q ∈ b :: rest, a < q) :
    EndsRun (a :: b :: rest) start p := by
  refine ⟨List.mem_cons_of_mem a h.mem, h.above, fun hmem => ?_, fun q hq hsq hqp => ?_⟩
  · rcases List.mem_cons.mp hmem with heq | hmem
    · have := hlt p h.mem
      lia
    · exact h.gap hmem
  · rcases List.mem_cons.mp hq with rfl | hmem
    · exact hb ▸ List.mem_cons_of_mem q List.mem_cons_self
    · exact List.mem_cons_of_mem a (h.lowest q hmem hsq hqp)

/-- The walk over consecutive pairs of an ascending list, if it does not crash, finds the end of
the first run, unless the run reaches the end of the list. -/
theorem endsRun_of_firstGap {start : Position} :
    ∀ {ps : List Position}, ps.Pairwise (· < ·) → (∀ q ∈ ps, start ≤ q) →
      ∀ {found : Option Position}, firstGap ps = .ok found →
        ∀ {p : Position}, (found.or ps.getLast?) = some p → EndsRun ps start p
  | [], _, _, _, hf, _, hp => by
    cases hf
    simp at hp
  | [a], h, hs, _, hf, p, hp => by
    cases hf
    obtain rfl : a = p := by simpa using hp
    exact .head h (hs a List.mem_cons_self) (by simp)
  | a :: b :: rest, h, hs, found, hf, p, hp => by
    obtain ⟨hab, hrest⟩ := List.pairwise_cons.mp h
    have hlt : a < b := hab b List.mem_cons_self
    obtain ⟨d, hdist, hf⟩ := bind_eq_ok.mp hf
    obtain rfl := distance_eq_ok hdist
    split_ifs at hf with hgap
    · -- The walk stops at `a`, whose neighbour is missing.
      cases hf
      obtain rfl : a = p := by simpa using hp
      refine .head h (hs a List.mem_cons_self) (List.forall_mem_cons.mpr ⟨by lia, fun q hq => ?_⟩)
      have := (List.pairwise_cons.mp hrest).1 q hq
      lia
    · -- `b` is the neighbour of `a`, so that the run is the one of the rest.
      have ih : EndsRun (b :: rest) start p := endsRun_of_firstGap hrest
        (fun q hq => hs q (List.mem_cons_of_mem a hq)) hf (by simpa using hp)
      exact ih.cons (by lia) hab

/-- Where something is committed at or above a start, the search for a gap that is answered by an
unchanged log ends at the end of the first run. -/
theorem endsRun_of_committedFrom {log : MemoryLog} (h : Ascending log.events)
    {start p : Position} {found : Option Position}
    (hf : firstGap (log.committedFrom start) = .ok found)
    (hp : found.or (log.committedFrom start).getLast? = some p) :
    EndsRun log.committed start p := by
  -- The walk sees only the positions from the start on. The others have no part in the run.
  rw [committedFrom_eq_filter h] at hf hp
  have hrun := endsRun_of_firstGap ((committed_pairwise h).filter _)
    (fun q hq => by simpa using (List.mem_filter.mp hq).2) hf hp
  have hmem : ∀ q, q ∈ log.committed.filter (start ≤ ·) ↔ q ∈ log.committed ∧ start ≤ q :=
    fun q => by simp
  refine ⟨((hmem p).mp hrun.mem).1, hrun.above, fun hgap => ?_, fun q hq hsq hqp => ?_⟩
  · exact hrun.gap ((hmem _).mpr ⟨hgap, by have := hrun.above; lia⟩)
  · exact ((hmem _).mp (hrun.lowest q ((hmem q).mpr ⟨hq, hsq⟩) hsq hqp)).1

/-! ## Calls -/

/-- Two logs hold the same events, positions and progress. They may differ in what they count. -/
structure SameContents (log log' : MemoryLog) : Prop where
  highest : log'.highest = log.highest
  events : log'.events = log.events
  progress : log'.progress = log.progress

/-- A log has the contents that it has. -/
theorem SameContents.refl (log : MemoryLog) : SameContents log log := ⟨rfl, rfl, rfl⟩

/-- Contents that stay twice stay. -/
theorem SameContents.trans {log log' log'' : MemoryLog} (h : SameContents log log')
    (h' : SameContents log' log'') : SameContents log log'' :=
  ⟨h'.highest.trans h.highest, h'.events.trans h.events, h'.progress.trans h.progress⟩

/-- A call that changes nothing leaves the contents as they are, whatever its outcome. -/
theorem sameContents_of_ask {α : Type} {operation : String}
    {answer : MemoryLog → Timestamp → Outcome α} {log log' : MemoryLog} {now : Timestamp}
    {outcome : Outcome α} (h : ask operation answer log now = (outcome, log')) :
    SameContents log log' := by
  simp only [ask, call] at h
  split_ifs at h <;> cases h <;> exact ⟨rfl, rfl, rfl⟩

/-- An answered call was answered from the contents of the log. -/
theorem answer_of_ask {α : Type} {operation : String}
    {answer : MemoryLog → Timestamp → Outcome α} {log log' : MemoryLog} {now : Timestamp} {a : α}
    (h : ask operation answer log now = (.ok a, log')) : answer log' now = .ok a := by
  simp only [ask, call] at h
  split_ifs at h
  · obtain ⟨ha, rfl⟩ := Prod.mk.inj h
    exact ha
  · cases h

/-- Progress that could not be recorded leaves the contents as they are. -/
theorem sameContents_of_persist {shard : ShardName} {p : Position} {log log' : MemoryLog}
    {now : Timestamp} {fault : Fault} (h : persist shard p log now = (.error fault, log')) :
    SameContents log log' := by
  simp only [persist, call] at h
  split_ifs at h <;> cases h <;> exact ⟨rfl, rfl, rfl⟩

/-- Progress that was recorded is all that changes. -/
theorem persist_eq_ok {shard : ShardName} {p : Position} {log log' : MemoryLog}
    {now : Timestamp} {updated : Option Timestamp}
    (h : persist shard p log now = (.ok updated, log')) :
    log'.highest = log.highest ∧ log'.events = log.events ∧
      log'.progress = log.progress.record ⟨shard.identity, p, some now⟩ := by
  simp only [persist, call] at h
  split_ifs at h <;> cases h
  exact ⟨rfl, rfl, rfl⟩

/-- The high water mark on record, zero if there is none. -/
def mark (log : MemoryLog) : Position := (log.progress.find ShardName.highWater.identity).1

/-- Logs of the same contents have the same mark on record. -/
theorem SameContents.mark {log log' : MemoryLog} (h : SameContents log log') :
    log'.mark = log.mark := by
  unfold MemoryLog.mark
  rw [h.progress]

/-- Logs of the same contents have the same committed positions. -/
theorem SameContents.committed {log log' : MemoryLog} (h : SameContents log log') :
    log'.committed = log.committed := by
  unfold MemoryLog.committed
  rw [h.events]

end MemoryLog

end Tidemark
