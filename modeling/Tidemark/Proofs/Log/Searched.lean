import Mathlib.Order.Bounds.Defs
import Tidemark.Proofs.Log.Detected
import Tidemark.Proofs.Log.Writing

/-!
# What the searches of a log find

`SearchedLog` says what detection finds in a log, in terms of what writers have done to it so far
(`Written`), and what they may do between two calls: they commit further positions and take none
back. The logs in memory and in tables are such logs.
-/

namespace Tidemark

open LogView

/-- No position from a start on is missing between two of some positions. -/
def Gapless (ps : List Position) (start : Position) : Prop :=
  ∀ p ∈ ps, start ≤ p → (∃ q ∈ ps, p < q) → p + 1 ∈ ps

instance (ps : List Position) (start : Position) : Decidable (Gapless ps start) :=
  inferInstanceAs (Decidable (∀ p ∈ ps, _ → (∃ q ∈ ps, _) → _))

/-- Where nothing is missing, everything from one of the positions to another one is there. -/
theorem Gapless.covers {ps : List Position} {start q r m : Position} (h : Gapless ps start)
    (hq : q ∈ ps) (hsq : start ≤ q) (hqr : q ≤ r) (hm : m ∈ ps) (hrm : r ≤ m) : r ∈ ps := by
  induction r, hqr using Int.leInduction with
  | base => exact hq
  | succ r hqr ih => exact h r (ih (by lia)) (by lia) ⟨m, hm, by lia⟩

/-- From a committed start on, everything up to the highest position is committed exactly if no
position is missing between two others. -/
theorem covered_iff_gapless {ps : List Position} {start m : Position} (hstart : start ∈ ps)
    (hm : IsGreatest {q | q ∈ ps ∧ start ≤ q} m) :
    (∀ p, start ≤ p → p ≤ m → p ∈ ps) ↔ Gapless ps start := by
  constructor
  · intro hcovered p hp hsp ⟨q, hq, hpq⟩
    have hqm : q ≤ m := hm.2 ⟨hq, by lia⟩
    exact hcovered (p + 1) (by lia) (by lia)
  · intro hgapless p hsp hpm
    exact hgapless.covers hstart (le_refl _) hsp hm.1.1 hpm

/-- Where nothing is missing, the highest position ends the first run. -/
theorem Gapless.endsRun {ps : List Position} {start m : Position} (h : Gapless ps start)
    (hm : IsGreatest {q | q ∈ ps ∧ start ≤ q} m) : MemoryLog.EndsRun ps start m := by
  obtain ⟨⟨hmem, hstart⟩, hmax⟩ := hm
  refine ⟨hmem, hstart, fun hgap => ?_, fun q hq hsq hqm => h q hq hsq ⟨m, hmem, hqm⟩⟩
  have : m + 1 ≤ m := hmax ⟨hgap, by lia⟩
  lia

/-- What writers have done to a log. -/
structure Written where
  /-- The highest position that was assigned. -/
  assigned : Position
  /-- The positions that are committed or given up. -/
  committed : List Position
  /-- Those of them that were committed or given up at or after a time. -/
  since : Timestamp → List Position

/-- A log whose searches find what they look for among its committed positions. -/
class SearchedLog (L : Type) [EventLog L] extends DetectedLog L where
  /-- What writers have done to the log. -/
  written : L → Written
  /-- What a writer may do to a log in one call. -/
  Wrote : L → L → Prop
  /-- Writers keep a log in order. -/
  kept_of_wrote {log log' : L} : Wrote log log' → Kept log → Kept log'
  /-- Writers leave what is on record. -/
  recorded_of_wrote {log log' : L} : Wrote log log' → recorded log' = recorded log
  /-- Writers take no committed position back. -/
  subset_of_wrote {log log' : L} : Wrote log log' →
    (written log).committed ⊆ (written log').committed
  /-- Reading statistics writes nothing. -/
  written_statistics {shard : ShardName} {log log' : L} {now : Timestamp}
    {outcome : Outcome RawStatistics} :
    EventLog.fetchStatistics shard log now = (outcome, log') → written log' = written log
  /-- The statistics tell the highest position. -/
  highest_eq {shard : ShardName} {log log' : L} {now : Timestamp} {raw : RawStatistics} :
    EventLog.fetchStatistics shard log now = (.ok raw, log') →
      raw.highestSequence = (written log).assigned
  /-- Looking for the beginning of a safe zone writes nothing. -/
  written_earliest {zone : Timestamp} {log log' : L} {now : Timestamp}
    {outcome : Outcome (Option Position)} :
    EventLog.findEarliestCommitted zone log now = (outcome, log') → written log' = written log
  /-- A safe zone begins at the lowest position that was committed in time. -/
  earliest_some {zone : Timestamp} {p : Position} {log log' : L} {now : Timestamp} :
    Kept log → EventLog.findEarliestCommitted zone log now = (.ok (some p), log') →
      IsLeast {q | q ∈ (written log).since zone} p
  /-- If no safe zone is found then nothing was committed in time. -/
  earliest_none {zone : Timestamp} {log log' : L} {now : Timestamp} :
    Kept log → EventLog.findEarliestCommitted zone log now = (.ok none, log') →
      (written log).since zone = []
  /-- Looking for a gap writes nothing. -/
  written_firstGap {start : Position} {log log' : L} {now : Timestamp}
    {outcome : Outcome (Option Position)} :
    EventLog.findFirstGap start log now = (outcome, log') → written log' = written log
  /-- The gap that is found ends the first run. -/
  firstGap_some {start p : Position} {log log' : L} {now : Timestamp} :
    Kept log → EventLog.findFirstGap start log now = (.ok (some p), log') →
      MemoryLog.EndsRun (written log).committed start p
  /-- If no gap is found then there is none. -/
  firstGap_none {start : Position} {log log' : L} {now : Timestamp} :
    Kept log → EventLog.findFirstGap start log now = (.ok none, log') →
      Gapless (written log).committed start
  /-- Looking for the highest position writes nothing. -/
  written_maxCommitted {start : Position} {log log' : L} {now : Timestamp}
    {outcome : Outcome (Option Position)} :
    EventLog.findMaxCommitted start log now = (outcome, log') → written log' = written log
  /-- The position that is found is the highest one from the start on. -/
  maxCommitted_some {start p : Position} {log log' : L} {now : Timestamp} :
    Kept log → EventLog.findMaxCommitted start log now = (.ok (some p), log') →
      IsGreatest {q | q ∈ (written log).committed ∧ start ≤ q} p
  /-- If no position is found then nothing is committed from the start on. -/
  maxCommitted_none {start : Position} {log log' : L} {now : Timestamp} :
    Kept log → EventLog.findMaxCommitted start log now = (.ok none, log') →
      ∀ q ∈ (written log).committed, q < start
  /-- Recording progress writes no event. -/
  written_persist {shard : ShardName} {p : Position} {log log' : L} {now : Timestamp}
    {outcome : Outcome (Option Timestamp)} :
    EventLog.persistMark shard p log now = (outcome, log') → written log' = written log

namespace SearchedLog

variable {L : Type} [EventLog L] [SearchedLog L] {log log' : L}

/-- Writers keep a log in order, however often they write. -/
theorem kept_of_writes (h : Relation.ReflTransGen Wrote log log') (hk : Kept log) :
    Kept log' := by
  induction h with
  | refl => exact hk
  | tail _ hw ih => exact kept_of_wrote hw ih

/-- Writers take no committed position back, however often they write. -/
theorem subset_of_writes (h : Relation.ReflTransGen Wrote log log') :
    (written log).committed ⊆ (written log').committed := by
  induction h with
  | refl => exact List.Subset.refl _
  | tail _ hw ih => exact List.Subset.trans ih (subset_of_wrote hw)

/-- Neither shards nor detection can tell two logs apart. -/
structure SameState (log log' : L) : Prop extends SameView log log' where
  written : written log' = written log

/-- Nobody can tell a log from itself. -/
theorem SameState.refl (log : L) : SameState log log := ⟨.refl log, rfl⟩

/-- Logs that cannot be told from a third one cannot be told apart. -/
theorem SameState.trans {log log' log'' : L} (h : SameState log log') (h' : SameState log' log'') :
    SameState log log'' :=
  ⟨h.toSameView.trans h'.toSameView, h'.written.trans h.written⟩

end SearchedLog

/-! ## The log in memory -/

namespace MemoryLog

/-- What the events of a log are after a writer's call. -/
theorem Wrote.events {log log' : MemoryLog} (h : Wrote log log') :
    (log'.events = log.events ∨ ∃ p e, log'.events = put p e log.events) ∧
      log'.progress = log.progress := by
  cases h with
  | reserved h =>
    obtain ⟨-, rfl⟩ := reserve_eq_ok h
    exact ⟨.inl rfl, rfl⟩
  | appended e h =>
    obtain ⟨⟨q, reserved⟩, hr, h⟩ := bind_eq_ok.mp h
    obtain ⟨-, rfl⟩ := reserve_eq_ok hr
    obtain ⟨rfl, rfl⟩ := Prod.mk.inj (Except.ok.inj h)
    exact ⟨.inr ⟨_, e, rfl⟩, rfl⟩
  | @committed p e h => exact ⟨.inr ⟨p, e, rfl⟩, rfl⟩
  | @settled p now h =>
    unfold settle
    split_ifs
    · exact ⟨.inl rfl, rfl⟩
    · exact ⟨.inr ⟨p, _, rfl⟩, rfl⟩

/-- The last of the committed positions from a start on is the highest one. -/
theorem isGreatest_of_getLast? {log : MemoryLog} (h : Ascending log.events) {start p : Position}
    (hp : (log.committedFrom start).getLast? = some p) :
    IsGreatest {q | q ∈ log.committed ∧ start ≤ q} p := by
  rw [committedFrom_eq_filter h] at hp
  obtain ⟨init, hinit⟩ := List.getLast?_eq_some_iff.mp hp
  have hmem : ∀ q, q ∈ log.committed ∧ start ≤ q ↔ q ∈ init ++ [p] := fun q => by
    rw [← hinit]
    simp
  have hlt : ∀ q ∈ init, q < p := fun q hq => by
    have hpw := (committed_pairwise h).filter (start ≤ ·)
    rw [hinit, List.pairwise_append] at hpw
    exact hpw.2.2 q hq p List.mem_cons_self
  refine ⟨(hmem p).mpr (by simp), fun q hq => ?_⟩
  rcases List.mem_append.mp ((hmem q).mp hq) with hq | hq
  · exact (hlt q hq).le
  · exact (List.mem_singleton.mp hq).le

/-- If there is no last one of the committed positions from a start on then there is none. -/
theorem lt_of_getLast?_eq_none {log : MemoryLog} (h : Ascending log.events) {start : Position}
    (hp : (log.committedFrom start).getLast? = none) : ∀ q ∈ log.committed, q < start := by
  rw [List.getLast?_eq_none_iff, committedFrom_eq_filter h, List.filter_eq_nil_iff] at hp
  simpa using hp

/-- If the walk over consecutive pairs finds no gap then nothing is missing. -/
theorem gapless_of_firstGap {log : MemoryLog} (h : Ascending log.events) {start : Position}
    (hf : firstGap (log.committedFrom start) = .ok none) : Gapless log.committed start := by
  intro p hp hsp ⟨q, hq, hpq⟩
  cases hlast : (log.committedFrom start).getLast? with
  | none => exact absurd (lt_of_getLast?_eq_none h hlast p hp) (not_lt.mpr hsp)
  | some m =>
    have hrun : EndsRun log.committed start m :=
      endsRun_of_committedFrom h hf (by simpa using hlast)
    have hqm : q ≤ m := (isGreatest_of_getLast? h hlast).2 ⟨hq, by lia⟩
    exact hrun.lowest p hp hsp (by lia)

/-- A search for a gap that was answered walked over the committed positions of the log. -/
theorem firstGap_of_ask {log log' : MemoryLog} {start : Position} {now : Timestamp}
    {found : Option Position}
    (h : EventLog.findFirstGap start log now = (.ok found, log')) :
    firstGap (log.committedFrom start) = .ok found := by
  have hanswer := answer_of_ask h
  rw [committedFrom, (sameContents_of_ask h).committed] at hanswer
  unfold committedFrom
  cases hgap : firstGap (log.committed.dropWhile (· < start)) with
  | ok m => simpa [hgap, Except.mapError] using hanswer
  | error cause => simp [hgap, Except.mapError] at hanswer

/-- The positions committed or given up at or after a time. -/
def committedSince (log : MemoryLog) (zone : Timestamp) : List Position :=
  (log.events.filter fun x => decide (zone ≤ x.2.timestamp)).map Prod.fst

/-- The first event of a time is the lowest one, since the events are ascending. -/
theorem isLeast_of_find? {log : MemoryLog} (h : Ascending log.events) {zone : Timestamp}
    {p : Position}
    (hp : (log.events.find? fun x => decide (zone ≤ x.2.timestamp)).map Prod.fst = some p) :
    IsLeast {q | q ∈ log.committedSince zone} p := by
  have hpw : (log.committedSince zone).Pairwise (· < ·) := List.pairwise_map.mpr (h.filter _)
  rw [← List.head?_filter, ← List.head?_map] at hp
  obtain ⟨rest, hrest⟩ := List.head?_eq_some_iff.mp hp
  have hsince : log.committedSince zone = p :: rest := hrest
  rw [hsince] at hpw ⊢
  refine ⟨List.mem_cons_self, fun q hq => ?_⟩
  rcases List.mem_cons.mp hq with rfl | hq
  · exact le_refl _
  · exact ((List.pairwise_cons.mp hpw).1 q hq).le

/-- What writers have done to a log in memory. -/
def toWritten (log : MemoryLog) : Written := ⟨log.highest, log.committed, log.committedSince⟩

/-- Writers have done the same to logs of the same events and the same highest position. -/
theorem toWritten_congr {log log' : MemoryLog} (hhigh : log'.highest = log.highest)
    (hevents : log'.events = log.events) : log'.toWritten = log.toWritten := by
  have hsince : log'.committedSince = log.committedSince := by
    funext zone
    rw [committedSince, hevents, committedSince]
  rw [toWritten, hhigh, committed, hevents, hsince, toWritten, committed]

/-- Writers have done the same to logs of the same contents. -/
theorem SameContents.written {log log' : MemoryLog} (h : SameContents log log') :
    log'.toWritten = log.toWritten :=
  toWritten_congr h.highest h.events

instance : SearchedLog MemoryLog where
  written := toWritten
  Wrote := Wrote
  kept_of_wrote {log log'} hw hk := by
    show Ascending log'.events
    rcases hw.events.1 with heq | ⟨p, e, heq⟩
    · rw [heq]; exact hk
    · rw [heq]; exact put_ascending hk
  recorded_of_wrote {log log'} hw := by
    show (fun i => (log'.progress.find i).1) = fun i => (log.progress.find i).1
    rw [hw.events.2]
  subset_of_wrote {log log'} hw q hq := by
    show q ∈ log'.committed
    rcases hw.events.1 with heq | ⟨p, e, heq⟩
    · rw [committed, heq]; exact hq
    · rw [committed, heq, mem_fst_put]; exact .inr hq
  written_statistics h := (sameContents_of_ask h).written
  highest_eq h := by
    rw [← (sameContents_of_ask h).written]
    exact (congrArg RawStatistics.highestSequence (Except.ok.inj (answer_of_ask h))).symm
  written_earliest h := (sameContents_of_ask h).written
  earliest_some hk h := by
    have hanswer := Except.ok.inj (answer_of_ask h)
    rw [(sameContents_of_ask h).events] at hanswer
    exact isLeast_of_find? hk hanswer
  earliest_none hk h := by
    have hanswer := Except.ok.inj (answer_of_ask h)
    rw [(sameContents_of_ask h).events, ← List.head?_filter, ← List.head?_map,
      List.head?_eq_none_iff] at hanswer
    exact hanswer
  written_firstGap h := (sameContents_of_ask h).written
  firstGap_some hk h := endsRun_of_committedFrom hk (firstGap_of_ask h) rfl
  firstGap_none hk h := gapless_of_firstGap hk (firstGap_of_ask h)
  written_maxCommitted h := (sameContents_of_ask h).written
  maxCommitted_some hk h := by
    have hanswer := Except.ok.inj (answer_of_ask h)
    rw [committedFrom, (sameContents_of_ask h).committed] at hanswer
    exact isGreatest_of_getLast? hk hanswer
  maxCommitted_none hk h := by
    have hanswer := Except.ok.inj (answer_of_ask h)
    rw [committedFrom, (sameContents_of_ask h).committed] at hanswer
    exact lt_of_getLast?_eq_none hk hanswer
  written_persist {shard p log log' now outcome} h := by
    cases outcome with
    | error fault => exact (sameContents_of_persist h).written
    | ok updated =>
      obtain ⟨hhigh, hevents, -⟩ := persist_eq_ok h
      exact toWritten_congr hhigh hevents

end MemoryLog

/-! ## The log in tables -/

namespace TableLog

/-- The positions that are taken. -/
def committed (log : TableLog) : List Position := log.events.map (·.sequence)

/-- What a writer does to a log in one call. -/
inductive Wrote (log : TableLog) : TableLog → Prop where
  /-- A position is reserved. -/
  | reserved {p : Position} {log' : TableLog} {now : Timestamp}
    (h : reserve log now = (.ok p, log')) : Wrote log log'
  /-- An event is committed at a position reserved with it. -/
  | appended {p : Position} {log' : TableLog} {now : Timestamp} (eventType : String)
    (data : List UInt8) (h : append eventType data log now = (.ok p, log')) : Wrote log log'
  /-- An event is committed at a reserved position. -/
  | committed {p : Position} {log' : TableLog} {now : Timestamp} (eventType : String)
    (data : List UInt8) (hp : 1 ≤ p ∧ p ≤ log.counter)
    (h : commit p eventType data log now = (.ok (), log')) : Wrote log log'
  /-- A reserved position is given up, unless it is taken. -/
  | settled {p : Position} {log' : TableLog} {now : Timestamp} (hp : 1 ≤ p ∧ p ≤ log.counter)
    (h : settle p log now = (.ok (), log')) : Wrote log log'

/-- What the rows of a log are after a row has been added, unless its position was taken. -/
theorem insert_cases (log : TableLog) (row : EventRow) :
    (∃ fault, log.insert row = (.error fault, log)) ∨
      row.sequence ∉ log.committed ∧
        log.insert row = (.ok (), { log with events := log.events ++ [row] }) := by
  unfold insert
  split_ifs with htaken
  · exact .inl ⟨_, rfl⟩
  · refine .inr ⟨fun hmem => htaken ?_, rfl⟩
    simpa [isTaken, TableLog.committed] using hmem

/-- A call that was served was served by the log. -/
theorem serve_of_call {α : Type} {serve : LogCall TableLog α} {log log' : TableLog}
    {now : Timestamp} {a : α} (h : call serve log now = (.ok a, log')) :
    serve log now = (.ok a, log') := by
  unfold call at h
  split_ifs at h
  · cases h
  · exact h

/-- What the rows of a log are after a writer's call: they stay, or one is added whose position was
not taken. -/
theorem Wrote.events {log log' : TableLog} (h : Wrote log log') :
    (log'.events = log.events ∨
      ∃ row, row.sequence ∉ log.committed ∧ log'.events = log.events ++ [row]) ∧
      log'.progress = log.progress := by
  cases h with
  | reserved h =>
    cases serve_of_call h
    exact ⟨.inl rfl, rfl⟩
  | @appended p _ now eventType data h =>
    have h := serve_of_call h
    rcases insert_cases { log with counter := log.counter + 1 }
      ⟨log.counter + 1, eventType, data, now.toMillis, false⟩ with ⟨fault, heq⟩ | ⟨hnew, heq⟩
    · simp only [heq] at h
      cases h
    · simp only [heq] at h
      cases h
      exact ⟨.inr ⟨_, hnew, rfl⟩, rfl⟩
  | @committed p _ now eventType data hp h =>
    have h := serve_of_call h
    rcases insert_cases log ⟨p, eventType, data, now.toMillis, false⟩ with
      ⟨fault, heq⟩ | ⟨hnew, heq⟩
    · cases heq.symm.trans h
    · cases heq.symm.trans h
      exact ⟨.inr ⟨_, hnew, rfl⟩, rfl⟩
  | @settled p _ now hp h =>
    have h := serve_of_call h
    rcases insert_cases log ⟨p, tombstoneType, [], now.toMillis, true⟩ with
      ⟨fault, heq⟩ | ⟨hnew, heq⟩
    · simp only [heq] at h
      cases h
      exact ⟨.inl rfl, rfl⟩
    · simp only [heq] at h
      cases h
      exact ⟨.inr ⟨_, hnew, rfl⟩, rfl⟩

/-- The lowest of some positions is one of them that lies below all others. -/
theorem lowest_eq_some_iff {ps : List Position} {p : Position} :
    lowest ps = some p ↔ p ∈ ps ∧ ∀ q ∈ ps, p ≤ q :=
  List.min?_eq_some_iff

/-- A position is followed by another one and not by its neighbour exactly if something lies above
it and its neighbour is missing. -/
theorem following_any_iff {ps : List Position} {p : Position} :
    (following ps p).any (1 < · - p) = true ↔ (∃ q ∈ ps, p < q) ∧ p + 1 ∉ ps := by
  cases hfollow : following ps p with
  | none =>
    have hnone : ∀ q ∈ ps, q ≤ p := by
      rw [following, lowest, List.min?_eq_none_iff, List.filter_eq_nil_iff] at hfollow
      simpa using hfollow
    refine ⟨fun h => (by simp at h), fun ⟨⟨q, hq, hpq⟩, _⟩ => ?_⟩
    exact absurd (hnone q hq) (not_le.mpr hpq)
  | some r =>
    obtain ⟨hr, hlow⟩ := lowest_eq_some_iff.mp hfollow
    simp only [List.mem_filter, decide_eq_true_eq] at hr hlow
    simp only [Option.any_some, decide_eq_true_eq]
    constructor
    · intro hgap
      refine ⟨⟨r, hr⟩, fun hmem => ?_⟩
      have := hlow (p + 1) ⟨hmem, by lia⟩
      lia
    · rintro ⟨-, hmissing⟩
      have hne : r ≠ p + 1 := fun heq => hmissing (heq ▸ hr.1)
      have := hr.2
      lia

/-- The taken positions from a start on. -/
theorem mem_takenFrom {log : TableLog} {start q : Position} :
    q ∈ log.takenFrom start ↔ q ∈ log.committed ∧ start ≤ q := by
  simp [takenFrom, TableLog.committed]

/-- Which of the taken positions from a start on have a gap behind them. -/
theorem mem_gaps_iff {log : TableLog} {start p : Position} :
    p ∈ (log.takenFrom start).filter
        (fun p => (following (log.takenFrom start) p).any (1 < · - p)) ↔
      p ∈ log.committed ∧ start ≤ p ∧ (∃ q ∈ log.committed, p < q) ∧ p + 1 ∉ log.committed := by
  rw [List.mem_filter, following_any_iff, mem_takenFrom, and_assoc]
  refine and_congr_right fun _ => and_congr_right fun hstart => and_congr ?_ ?_
  · refine exists_congr fun q => ?_
    rw [mem_takenFrom]
    exact ⟨fun h => ⟨h.1.1, h.2⟩, fun h => ⟨⟨h.1, by lia⟩, h.2⟩⟩
  · rw [mem_takenFrom]
    exact not_congr ⟨fun h => h.1, fun h => ⟨h, by lia⟩⟩

/-- What writers have done to a log in tables. -/
def toWritten (log : TableLog) : Written :=
  ⟨log.counter, log.committed, fun zone =>
    (log.events.filter fun row => decide (zone.toMillis ≤ row.millis)).map (·.sequence)⟩

instance : SearchedLog TableLog where
  written := toWritten
  Wrote := Wrote
  kept_of_wrote {log log'} hw hk := by
    show Distinct log'.events
    rcases hw.events.1 with heq | ⟨row, hnew, heq⟩
    · rw [heq]; exact hk
    · rw [heq, Distinct, List.pairwise_append]
      refine ⟨hk, List.pairwise_singleton _ _, fun a ha b hb hab => hnew ?_⟩
      obtain rfl := List.mem_singleton.mp hb
      exact hab ▸ List.mem_map_of_mem ha
  recorded_of_wrote {log log'} hw := by
    show (fun i => (log'.progress.find i).1) = fun i => (log.progress.find i).1
    rw [hw.events.2]
  subset_of_wrote {log log'} hw := by
    show log.events.map (·.sequence) ⊆ log'.events.map (·.sequence)
    rcases hw.events.1 with heq | ⟨row, hnew, heq⟩
    · rw [heq]
      exact List.Subset.refl _
    · rw [heq, List.map_append]
      exact List.subset_append_left _ _
  written_statistics h := by rw [eq_of_ask h]
  highest_eq h := congrArg RawStatistics.highestSequence (answer_of_ask h)
  written_earliest h := by rw [eq_of_ask h]
  earliest_some hk h := lowest_eq_some_iff.mp (answer_of_ask h).symm
  earliest_none hk h := List.min?_eq_none_iff.mp (answer_of_ask h).symm
  written_firstGap h := by rw [eq_of_ask h]
  firstGap_some {start p log log' now} hk h := by
    obtain ⟨hp, hlow⟩ := lowest_eq_some_iff.mp (answer_of_ask h).symm
    obtain ⟨hmem, hstart, -, hgap⟩ := mem_gaps_iff.mp hp
    refine ⟨hmem, hstart, hgap, fun q hq hsq hqp => ?_⟩
    by_contra hmissing
    exact absurd (hlow q (mem_gaps_iff.mpr ⟨hq, hsq, ⟨p, hmem, hqp⟩, hmissing⟩)) (not_le.mpr hqp)
  firstGap_none {start log log' now} hk h := by
    intro p hp hsp hbelow
    have hnone := (answer_of_ask h).symm
    unfold firstGap lowest at hnone
    rw [List.min?_eq_none_iff] at hnone
    by_contra hmissing
    exact absurd (mem_gaps_iff.mpr ⟨hp, hsp, hbelow, hmissing⟩) (by rw [hnone]; simp)
  written_maxCommitted h := by rw [eq_of_ask h]
  maxCommitted_some {start p log log' now} hk h := by
    obtain ⟨hmem, hmax⟩ := List.max?_eq_some_iff.mp (answer_of_ask h).symm
    exact ⟨mem_takenFrom.mp hmem, fun q hq => hmax q (mem_takenFrom.mpr hq)⟩
  maxCommitted_none {start log log' now} hk h q hq := by
    have hnone := List.max?_eq_none_iff.mp (answer_of_ask h).symm
    by_contra hle
    have hmem := mem_takenFrom.mpr ⟨hq, not_lt.mp hle⟩
    rw [hnone] at hmem
    cases hmem
  written_persist {shard p log log' now outcome} h := by
    simp only [EventLog.persistMark, call] at h
    split_ifs at h <;> cases h <;> rfl

end TableLog

end Tidemark
