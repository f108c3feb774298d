import Tidemark.Proofs.Log.Searched

/-!
# Logs that hold the same

A log in memory keeps its events in ascending order and finds what it is asked for by walking along
them. A log in tables keeps its rows in the order in which they were committed, and finds the same
by queries over all of them. The progress of the shards is in rows of either log, with a table of
its own for the second. `Twin` says when the two hold the same. Then they give the same answer to
whatever they are asked (`Twin.sameAnswers`).
-/

namespace Tidemark

/-! ## Searches -/

namespace TableLog

/-- The lowest of some positions depends on which positions they are alone. -/
theorem lowest_congr {ps qs : List Position} (h : ∀ p, p ∈ ps ↔ p ∈ qs) :
    lowest ps = lowest qs := by
  refine Option.ext fun p => ?_
  simp only [lowest_eq_some_iff, h]

/-- The highest of some positions depends on which positions they are alone. -/
theorem max?_congr {ps qs : List Position} (h : ∀ p, p ∈ ps ↔ p ∈ qs) : ps.max? = qs.max? := by
  refine Option.ext fun p => ?_
  simp only [List.max?_eq_some_iff, h]

/-- A position is one of some positions, behind which there are others but not its neighbour. -/
def HasGap (ps : List Position) (p : Position) : Prop :=
  p ∈ ps ∧ (∃ q ∈ ps, p < q) ∧ p + 1 ∉ ps

/-- The first gap is behind the lowest position that has a gap behind it. -/
theorem firstGap_eq_some_iff {ps : List Position} {p : Position} :
    firstGap ps = some p ↔ HasGap ps p ∧ ∀ q, HasGap ps q → p ≤ q := by
  unfold firstGap
  simp only [lowest_eq_some_iff, List.mem_filter, following_any_iff]
  rfl

/-- Where the same positions have gaps behind them, the first gap is the same. -/
theorem firstGap_congr {ps qs : List Position} (h : ∀ p, HasGap ps p ↔ HasGap qs p) :
    firstGap ps = firstGap qs := by
  refine Option.ext fun p => ?_
  simp only [firstGap_eq_some_iff, h]

/-- Of the same positions the same ones have gaps behind them. -/
theorem hasGap_congr {ps qs : List Position} (h : ∀ p, p ∈ ps ↔ p ∈ qs) (p : Position) :
    HasGap ps p ↔ HasGap qs p := by
  simp only [HasGap, h]

/-- A position that comes before its neighbour and lies below all others has no part in any gap. -/
theorem hasGap_cons {a b : Position} {rest : List Position} (hb : b = a + 1)
    (hlt : ∀ q ∈ b :: rest, a < q) (p : Position) :
    HasGap (a :: b :: rest) p ↔ HasGap (b :: rest) p := by
  constructor
  · rintro ⟨hp, ⟨q, hq, hpq⟩, hnext⟩
    have hne : p ≠ a := by
      rintro rfl
      exact hnext (hb ▸ List.mem_cons_of_mem p List.mem_cons_self)
    have hp : p ∈ b :: rest := List.mem_of_ne_of_mem hne hp
    have hap : a < p := hlt p hp
    have hqa : q ≠ a := by lia
    exact ⟨hp, ⟨q, List.mem_of_ne_of_mem hqa hq, hpq⟩, fun hmem =>
      hnext (List.mem_cons_of_mem a hmem)⟩
  · rintro ⟨hp, ⟨q, hq, hpq⟩, hnext⟩
    have hap : a < p := hlt p hp
    refine ⟨List.mem_cons_of_mem a hp, ⟨q, List.mem_cons_of_mem a hq, hpq⟩, fun hmem => ?_⟩
    have hpa : p + 1 ≠ a := by lia
    exact hnext (List.mem_of_ne_of_mem hpa hmem)

end TableLog

namespace MemoryLog

/-- The walk along ascending positions finds what the query over all of them finds. -/
theorem firstGap_eq : ∀ {ps : List Position}, ps.Pairwise (· < ·) →
    (∀ p ∈ ps, 0 ≤ p ∧ p ≤ Position.last) → firstGap ps = .ok (TableLog.firstGap ps)
  | [], _, _ => rfl
  | [a], _, _ => by
    have hnone : TableLog.firstGap [a] = none := by
      refine Option.eq_none_iff_forall_ne_some.mpr fun p hp => ?_
      -- There is nothing above the only position.
      obtain ⟨⟨hmem, ⟨q, hq, hpq⟩, -⟩, -⟩ := TableLog.firstGap_eq_some_iff.mp hp
      rw [List.mem_singleton.mp hmem, List.mem_singleton.mp hq] at hpq
      exact absurd hpq (lt_irrefl a)
    rw [hnone]
    rfl
  | a :: b :: rest, h, hrange => by
    obtain ⟨hlt, hrest⟩ := List.pairwise_cons.mp h
    have hab : a < b := hlt b List.mem_cons_self
    have ha := hrange a List.mem_cons_self
    have hb := hrange b (List.mem_cons_of_mem a List.mem_cons_self)
    have hdistance : Position.distance b a = .ok (b - a) := by
      refine if_pos ⟨?_, ?_⟩
      · have hfirst : Position.first ≤ 0 := by decide
        lia
      · lia
    rw [firstGap, hdistance]
    show (if 1 < b - a then _ else _) = _
    split_ifs with hgap
    · -- The walk stops at the lowest position, whose neighbour is missing.
      refine congrArg Except.ok
        (TableLog.firstGap_eq_some_iff.mpr ⟨⟨?_, ⟨b, ?_, hab⟩, ?_⟩, ?_⟩).symm
      · exact List.mem_cons_self
      · exact List.mem_cons_of_mem a List.mem_cons_self
      · rw [List.mem_cons, List.mem_cons]
        rintro (heq | heq | hmem)
        · lia
        · lia
        · have := (List.pairwise_cons.mp hrest).1 _ hmem
          lia
      · rintro q ⟨hq, -, -⟩
        rcases List.mem_cons.mp hq with rfl | hmem
        · exact le_refl _
        · exact (hlt q hmem).le
    · have hnext : b = a + 1 := by lia
      rw [firstGap_eq hrest fun p hp => hrange p (List.mem_cons_of_mem a hp),
        TableLog.firstGap_congr (TableLog.hasGap_cons hnext hlt)]

/-- The last one of ascending positions is the highest. -/
theorem getLast?_eq_max? {ps : List Position} (h : ps.Pairwise (· < ·)) :
    ps.getLast? = ps.max? := by
  rcases List.eq_nil_or_concat' ps with rfl | ⟨init, p, rfl⟩
  · rfl
  · obtain ⟨-, -, hbelow⟩ := List.pairwise_append.mp h
    rw [List.getLast?_concat, eq_comm, List.max?_eq_some_iff]
    refine ⟨by simp, fun q hq => ?_⟩
    rcases List.mem_append.mp hq with hinit | hlast
    · exact (hbelow q hinit p (List.mem_singleton_self p)).le
    · exact (List.mem_singleton.mp hlast).le

/-- The first one of ascending positions is the lowest. -/
theorem head?_eq_lowest {ps : List Position} (h : ps.Pairwise (· < ·)) :
    ps.head? = TableLog.lowest ps :=
  (List.min?_eq_head? (h.imp fun hab => min_eq_left hab.le)).symm

end MemoryLog

/-! ## Twins -/

/-- A row as a log in memory stores it. -/
def TableLog.toEntry (row : EventRow) : Position × Entry :=
  (row.sequence, ⟨row.eventType, row.data, .ofMillis row.millis, row.tombstone⟩)

/-- A log in memory and a log in tables hold the same. Neither refuses any call. -/
structure Twin (m : MemoryLog) (t : TableLog) : Prop where
  counter : t.counter = m.highest
  ascending : MemoryLog.Ascending m.events
  events : m.events.Perm (t.events.map TableLog.toEntry)
  progress : TwinRows m.progress t.progress
  /-- Every committed position was assigned. -/
  assigned : ∀ p ∈ m.committed, 1 ≤ p ∧ p ≤ m.highest
  fits : 0 ≤ m.highest ∧ m.highest ≤ Position.last
  healthy : m.failNext = 0 ∧ m.failPersists = 0
  opened : t.closed = false

/-- The empty logs hold the same. -/
theorem twin_empty : Twin {} {} where
  counter := rfl
  ascending := .nil
  events := .nil
  progress := .empty
  assigned := by simp [MemoryLog.committed]
  fits := ⟨le_refl _, by decide⟩
  healthy := ⟨rfl, rfl⟩
  opened := rfl

/-- A time in whole milliseconds is kept as it is. -/
@[simp] theorem Timestamp.toMillis_ofMillis (ms : Int) : (ofMillis ms).toMillis = ms :=
  Int.mul_ediv_cancel ms (by decide)

/-- Times in whole milliseconds are in the order of the milliseconds. -/
theorem Timestamp.ofMillis_le_iff {a b : Int} : ofMillis a ≤ ofMillis b ↔ a ≤ b := by
  show a * ((1000000 : ℕ) : Int) ≤ b * ((1000000 : ℕ) : Int) ↔ a ≤ b
  omega

namespace Twin

variable {m : MemoryLog} {t : TableLog}

/-- Twins have the same committed positions. -/
theorem mem_committed (h : Twin m t) (p : Position) : p ∈ m.committed ↔ p ∈ t.committed := by
  have hperm : m.committed.Perm ((t.events.map TableLog.toEntry).map Prod.fst) := h.events.map _
  rw [List.map_map] at hperm
  exact hperm.mem_iff

/-- The rows of a twin have distinct positions. -/
theorem distinct (h : Twin m t) : TableLog.Distinct t.events := by
  have hdistinct : (t.events.map TableLog.toEntry).Pairwise (·.1 ≠ ·.1) :=
    h.events.pairwise (h.ascending.imp fun hab => ne_of_lt hab) fun hab => hab.symm
  have hrows := List.pairwise_map.mp hdistinct
  exact hrows

/-- Twins have the same committed positions from a start on. -/
theorem mem_from (h : Twin m t) (start p : Position) :
    p ∈ m.committedFrom start ↔ p ∈ t.takenFrom start := by
  rw [MemoryLog.committedFrom_eq_filter h.ascending, TableLog.mem_takenFrom, List.mem_filter,
    h.mem_committed]
  simp

/-- The committed positions of a twin from a start on are ascending and fit into 64 bits. -/
theorem pairwise_from (h : Twin m t) (start : Position) :
    (m.committedFrom start).Pairwise (· < ·) ∧
      ∀ p ∈ m.committedFrom start, 0 ≤ p ∧ p ≤ Position.last := by
  rw [MemoryLog.committedFrom_eq_filter h.ascending]
  refine ⟨(MemoryLog.committed_pairwise h.ascending).filter _, fun p hp => ?_⟩
  obtain ⟨hlow, hhigh⟩ := h.assigned p (List.mem_filter.mp hp).1
  exact ⟨by lia, le_trans hhigh h.fits.2⟩

/-- Twins find the same first gap. -/
theorem firstGap_eq (h : Twin m t) (start : Position) :
    MemoryLog.firstGap (m.committedFrom start) = .ok (TableLog.firstGap (t.takenFrom start)) := by
  obtain ⟨hascending, hrange⟩ := h.pairwise_from start
  rw [MemoryLog.firstGap_eq hascending hrange,
    TableLog.firstGap_congr (TableLog.hasGap_congr (h.mem_from start))]

/-- Twins find the same highest position. -/
theorem maxCommitted_eq (h : Twin m t) (start : Position) :
    (m.committedFrom start).getLast? = (t.takenFrom start).max? := by
  rw [MemoryLog.getLast?_eq_max? (h.pairwise_from start).1, TableLog.max?_congr (h.mem_from start)]

/-- Twins find the same position as the first one that was committed at or after a time in whole
milliseconds. -/
theorem earliest_eq (h : Twin m t) (since : Int) :
    (m.events.find? fun (_, e) => decide (.ofMillis since ≤ e.timestamp)).map Prod.fst =
      TableLog.lowest
        ((t.events.filter fun row => decide (since ≤ row.millis)).map (·.sequence)) := by
  let late : Position × Entry → Bool := fun x => decide (.ofMillis since ≤ x.2.timestamp)
  have hascending : ((m.events.filter late).map Prod.fst).Pairwise (· < ·) :=
    List.pairwise_map.mpr (h.ascending.filter _)
  -- What is late in one of the logs is late in the other.
  have hlate : ((t.events.map TableLog.toEntry).filter late).map Prod.fst =
      (t.events.filter fun row => decide (since ≤ row.millis)).map (·.sequence) := by
    rw [List.filter_map, List.map_map]
    refine congrArg (List.map _) (List.filter_congr fun row _ => ?_)
    exact decide_eq_decide.mpr Timestamp.ofMillis_le_iff
  have hperm := (h.events.filter late).map Prod.fst
  rw [hlate] at hperm
  calc (m.events.find? late).map Prod.fst = ((m.events.filter late).map Prod.fst).head? := by
        rw [List.head?_map, List.head?_filter]
    _ = TableLog.lowest ((m.events.filter late).map Prod.fst) :=
        MemoryLog.head?_eq_lowest hascending
    _ = _ := TableLog.lowest_congr fun p => hperm.mem_iff

/-- Twins have the same events to hand out. -/
theorem storedEvents_eq (h : Twin m t) : m.storedEvents = t.storedEvents := by
  have hm : m.storedEvents.Pairwise (·.sequence < ·.sequence) :=
    List.pairwise_map.mpr (h.ascending.filter _)
  have ht : t.storedEvents.Pairwise (·.sequence < ·.sequence) :=
    List.pairwise_map.mpr (TableLog.inOrder_pairwise (h.distinct.filter _))
  have hrecords : ((t.events.map TableLog.toEntry).filter (!·.2.tombstone)).map MemoryLog.toRecord =
      (t.events.filter (!·.tombstone)).map TableLog.toRecord := by
    rw [List.filter_map, List.map_map]
    rfl
  have hperm : m.storedEvents.Perm t.storedEvents := by
    have hstored := (h.events.filter (!·.2.tombstone)).map MemoryLog.toRecord
    rw [hrecords] at hstored
    exact hstored.trans ((List.mergeSort_perm _ _).symm.map _)
  -- Two ascending lists of the same events are the same list.
  exact hperm.eq_of_pairwise (fun a b _ _ hab hba => absurd hab (lt_asymm hba)) hm ht

/-- Twins hand out the same events. -/
theorem eventsIn_eq (h : Twin m t) (after upTo : Position) (limit : ℕ) :
    m.eventsIn after upTo limit = t.eventsIn after upTo limit := by
  rw [MemoryLog.eventsIn_eq h.ascending, TableLog.eventsIn_eq h.distinct, h.storedEvents_eq]

end Twin

/-! ## Answers -/

/-- Two logs give the same answer at a time to whatever they are asked. They are asked about times
in whole milliseconds only. -/
structure SameAnswers {L L' : Type} [EventLog L] [EventLog L'] (log : L) (log' : L')
    (now : Timestamp) : Prop where
  statistics : ∀ shard,
    (EventLog.fetchStatistics shard log now).1 = (EventLog.fetchStatistics shard log' now).1
  highest : (EventLog.highestAssigned log now).1 = (EventLog.highestAssigned log' now).1
  persisted : ∀ shard,
    (EventLog.lastPersistedMark shard log now).1 = (EventLog.lastPersistedMark shard log' now).1
  firstGap : ∀ start,
    (EventLog.findFirstGap start log now).1 = (EventLog.findFirstGap start log' now).1
  maxCommitted : ∀ start,
    (EventLog.findMaxCommitted start log now).1 = (EventLog.findMaxCommitted start log' now).1
  earliest : ∀ since, (EventLog.findEarliestCommitted (.ofMillis since) log now).1 =
    (EventLog.findEarliestCommitted (.ofMillis since) log' now).1
  progress : (EventLog.allProgress log now).1 = (EventLog.allProgress log' now).1
  events : ∀ after upTo limit, (EventLog.fetchEvents after upTo limit log now).1 =
    (EventLog.fetchEvents after upTo limit log' now).1

/-- What a log in memory answers that is not to fail. -/
theorem MemoryLog.fst_ask {α : Type} (operation : String)
    (answer : MemoryLog → Timestamp → Outcome α) {log : MemoryLog} (h : log.failNext = 0)
    (now : Timestamp) :
    (ask operation answer log now).1 = answer { log with calls := log.calls + 1 } now := by
  unfold ask call
  rw [if_pos h]

/-- What a log in tables answers that is open. -/
theorem TableLog.fst_ask {α : Type} (answer : TableLog → Timestamp → α) {log : TableLog}
    (h : log.closed = false) (now : Timestamp) : (ask answer log now).1 = .ok (answer log now) := by
  unfold ask call
  rw [if_neg (by simp [h])]

/-- Twins give the same answers at a time in whole milliseconds. -/
theorem Twin.sameAnswers {m : MemoryLog} {t : TableLog} (h : Twin m t) (ms : Int) :
    SameAnswers m t (.ofMillis ms) := by
  have hm {α : Type} {operation : String} {answer : MemoryLog → Timestamp → Outcome α} :=
    MemoryLog.fst_ask operation answer h.healthy.1 (.ofMillis ms)
  have ht {α : Type} {answer : TableLog → Timestamp → α} :=
    TableLog.fst_ask answer h.opened (.ofMillis ms)
  refine ⟨fun shard => ?_, ?_, fun shard => ?_, fun start => ?_, fun start => ?_, fun since => ?_,
    ?_, fun after upTo limit => ?_⟩
  · refine (hm.trans ?_).trans ht.symm
    simp only [h.counter, h.progress.find_eq, TableLog.inMillis, Timestamp.toMillis_ofMillis]
  · exact (hm.trans (congrArg Except.ok h.counter.symm)).trans ht.symm
  · refine (hm.trans ?_).trans ht.symm
    rw [h.progress.find_eq]
  · refine (hm.trans ?_).trans ht.symm
    exact congrArg (Except.mapError Fault.crash) (h.firstGap_eq start)
  · exact (hm.trans (congrArg Except.ok (h.maxCommitted_eq start))).trans ht.symm
  · refine (hm.trans ?_).trans ht.symm
    rw [Timestamp.toMillis_ofMillis]
    exact congrArg Except.ok (h.earliest_eq since)
  · refine (hm.trans ?_).trans ht.symm
    rw [h.progress.listing_eq]
  · exact (hm.trans (congrArg Except.ok (h.eventsIn_eq after upTo limit))).trans ht.symm

end Tidemark
