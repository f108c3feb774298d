import Tidemark.Proofs.Log.Twin

/-!
# The log in memory and the log in tables are alike

What is written to a log is a `LogWrite`, which both logs have a way to carry out. Let the same be
written to two empty logs, one in memory and one in tables, at times in whole milliseconds. Both
answer every write alike, and after each of them both give the same answers to all that is asked
(`sameAnswers_of_history`).
-/

namespace Tidemark

/-! ## Writes -/

/-- What is written to a log. -/
inductive LogWrite where
  /-- The next position is reserved. -/
  | reserve
  /-- The next position is reserved and an event is committed at it. -/
  | append (eventType : String) (data : List UInt8)
  /-- An event is committed at a position. -/
  | commit (p : Position) (eventType : String) (data : List UInt8)
  /-- A position is given up. -/
  | settle (p : Position)
  /-- The progress of a shard is recorded. -/
  | persist (shard : ShardName) (p : Position)

namespace LogWrite

/-- What a write is answered with. -/
def Answer : LogWrite → Type
  | reserve | append _ _ => Position
  | commit _ _ _ | settle _ => Unit
  | persist _ _ => Option Timestamp

/-- Writers leave the last position that can be represented alone, commit events at open positions,
and give up positions that were assigned. -/
def Allowed (log : MemoryLog) : LogWrite → Prop
  | reserve | append _ _ => log.highest + 1 < Position.last
  | commit p _ _ => log.Open p
  | settle p => 1 ≤ p ∧ p ≤ log.highest
  | persist _ _ => True

/-- Writes to a log in memory. -/
def inMemory : (w : LogWrite) → LogCall MemoryLog w.Answer
  | reserve, log, _ =>
    match log.reserve with
    | .ok (p, log) => (.ok p, log)
    | .error cause => (.error (.crash cause), log)
  | append eventType data, log, now =>
    match log.append ⟨eventType, data, now, false⟩ with
    | .ok (p, log) => (.ok p, log)
    | .error cause => (.error (.crash cause), log)
  | commit p eventType data, log, now => (.ok (), log.commit p ⟨eventType, data, now, false⟩)
  | settle p, log, now => (.ok (), log.settle p now)
  | persist shard p, log, now => EventLog.persistMark shard p log now

/-- Writes to a log in tables. -/
def inTables : (w : LogWrite) → LogCall TableLog w.Answer
  | reserve => TableLog.reserve
  | append eventType data => TableLog.append eventType data
  | commit p eventType data => TableLog.commit p eventType data
  | settle p => TableLog.settle p
  | persist shard p => EventLog.persistMark shard p

end LogWrite

/-! ## Rows and entries -/

namespace MemoryLog

/-- Putting an entry at a position where nothing is stored adds it. -/
theorem put_perm {p : Position} {e : Entry} {events : List (Position × Entry)}
    (h : p ∉ events.map Prod.fst) : (put p e events).Perm ((p, e) :: events) := by
  induction events with
  | nil => exact .refl _
  | cons x rest ih =>
    obtain ⟨q, f⟩ := x
    obtain ⟨hne, hrest⟩ : p ≠ q ∧ p ∉ rest.map Prod.fst := by simpa using h
    unfold put
    split_ifs with hlt
    · exact .refl _
    · exact ((ih hrest).cons (q, f)).trans (.swap _ _ _)

/-- A position can be reserved unless the last one has been. -/
theorem reserve_eq {log : MemoryLog} (hlow : 0 ≤ log.highest)
    (hhigh : log.highest + 1 < Position.last) :
    log.reserve = .ok (log.highest + 1, { log with highest := log.highest + 1 }) := by
  have hfirst : Position.first ≤ 0 := by decide
  have hfits : (log.highest + 1).Fits := ⟨by lia, hhigh.le⟩
  unfold reserve Position.next
  rw [if_pos hfits]
  rfl

/-- An event can be appended unless the last position has been reserved. -/
theorem append_eq {log : MemoryLog} (e : Entry) (hlow : 0 ≤ log.highest)
    (hhigh : log.highest + 1 < Position.last) :
    log.append e = .ok (log.highest + 1,
      { log with highest := log.highest + 1, events := put (log.highest + 1) e log.events }) := by
  unfold append
  rw [reserve_eq hlow hhigh]
  rfl

end MemoryLog

namespace TableLog

/-- A row is added if its position is not taken. -/
theorem insert_new {log : TableLog} {row : EventRow} (h : row.sequence ∉ log.committed) :
    log.insert row = (.ok (), { log with events := log.events ++ [row] }) := by
  rcases insert_cases log row with ⟨fault, heq⟩ | ⟨-, heq⟩
  · unfold insert at heq ⊢
    rw [if_neg fun htaken => h (by simpa [isTaken, committed] using htaken)]
  · exact heq

/-- A row is not added if its position is taken. -/
theorem insert_taken {log : TableLog} {row : EventRow} (h : row.sequence ∈ log.committed) :
    (log.insert row).2 = log := by
  rcases insert_cases log row with ⟨fault, heq⟩ | ⟨hnew, -⟩
  · rw [heq]
  · exact absurd h hnew

/-- An open log serves a call. -/
theorem call_eq {α : Type} {serve : LogCall TableLog α} {log : TableLog} (h : log.closed = false)
    (now : Timestamp) : call serve log now = serve log now := by
  unfold call
  rw [if_neg (by simp [h])]

end TableLog

/-! ## Twins -/

namespace Twin

variable {m : MemoryLog} {t : TableLog}

/-- Twins stay twins as positions are reserved up to one of them. -/
theorem reserves (h : Twin m t) {p : Position} (hp : m.highest ≤ p ∧ p ≤ Position.last) :
    Twin { m with highest := p } { t with counter := p } :=
  { h with
    counter := rfl
    assigned := fun q hq => ⟨(h.assigned q hq).1, le_trans (h.assigned q hq).2 hp.1⟩
    fits := ⟨le_trans h.fits.1 hp.1, hp.2⟩ }

/-- Twins stay twins as a row is added at an assigned position that is not taken. -/
theorem adds (h : Twin m t) (row : EventRow) (hnew : row.sequence ∉ m.committed)
    (hrow : 1 ≤ row.sequence ∧ row.sequence ≤ m.highest) :
    Twin { m with events := MemoryLog.put row.sequence (TableLog.toEntry row).2 m.events }
      { t with events := t.events ++ [row] } :=
  { h with
    ascending := MemoryLog.put_ascending h.ascending
    events := by
      have hput := MemoryLog.put_perm (e := (TableLog.toEntry row).2) hnew
      have hrows : (TableLog.toEntry row :: m.events).Perm
          ((t.events ++ [row]).map TableLog.toEntry) := by
        rw [List.map_append]
        exact (h.events.cons _).trans (List.perm_append_singleton _ _).symm
      exact hput.trans hrows
    assigned := fun q hq => by
      rcases MemoryLog.mem_fst_put.mp hq with rfl | hq
      · exact hrow
      · exact h.assigned q hq }

/-- Nothing is taken above the highest position. -/
theorem next_free (h : Twin m t) : m.highest + 1 ∉ m.committed := fun hmem => by
  have := h.assigned _ hmem
  lia

end Twin

/-- A log in memory and a log in tables carry a write out and answer it alike, and then hold the
same. -/
structure CarriedAlike (w : LogWrite) (m : MemoryLog) (t : TableLog) (now : Timestamp) : Prop where
  answer : ∃ a, (w.inMemory m now).1 = .ok a ∧ (w.inTables t now).1 = .ok a
  twin : Twin (w.inMemory m now).2 (w.inTables t now).2

namespace Twin

variable {m : MemoryLog} {t : TableLog}

/-- It is enough to know what both logs answer and what becomes of them. -/
theorem carriedAlike {w : LogWrite} {now : Timestamp} {a : w.Answer} {m' : MemoryLog}
    {t' : TableLog} (h : Twin m' t') (hm : w.inMemory m now = (.ok a, m'))
    (ht : w.inTables t now = (.ok a, t')) : CarriedAlike w m t now := by
  refine ⟨⟨a, ?_, ?_⟩, ?_⟩
  · rw [hm]
  · rw [ht]
  · rw [hm, ht]
    exact h

/-- Twins reserve the same position. -/
theorem reserve (h : Twin m t) (hnext : m.highest + 1 < Position.last) (now : Timestamp) :
    CarriedAlike .reserve m t now := by
  refine (h.reserves ⟨by lia, hnext.le⟩).carriedAlike (a := m.highest + 1) ?_ ?_
  · rw [LogWrite.inMemory, MemoryLog.reserve_eq h.fits.1 hnext]
    rfl
  · rw [LogWrite.inTables, TableLog.reserve, TableLog.call_eq h.opened, h.counter]
    rfl

/-- Twins append an event at the same position. -/
theorem append (h : Twin m t) (hnext : m.highest + 1 < Position.last) (eventType : String)
    (data : List UInt8) (ms : Int) : CarriedAlike (.append eventType data) m t (.ofMillis ms) := by
  let row : EventRow := ⟨m.highest + 1, eventType, data, ms, false⟩
  have hlow := h.fits.1
  have hreserved := h.reserves (p := m.highest + 1) ⟨by lia, hnext.le⟩
  have hfree : row.sequence ∉ { t with counter := m.highest + 1 }.committed :=
    fun hmem => h.next_free ((h.mem_committed _).mpr hmem)
  have hadded := hreserved.adds row h.next_free ⟨by dsimp only [row]; lia, le_refl _⟩
  refine hadded.carriedAlike (a := m.highest + 1) ?_ ?_
  · simp only [LogWrite.inMemory, MemoryLog.append_eq _ hlow hnext]
    rfl
  · simp only [LogWrite.inTables, TableLog.append, TableLog.call_eq h.opened, h.counter,
      Timestamp.toMillis_ofMillis]
    rw [TableLog.insert_new hfree]
    rfl

/-- Twins commit an event at an open position. -/
theorem commit (h : Twin m t) {p : Position} (hopen : m.Open p) (eventType : String)
    (data : List UInt8) (ms : Int) :
    CarriedAlike (.commit p eventType data) m t (.ofMillis ms) := by
  let row : EventRow := ⟨p, eventType, data, ms, false⟩
  have hfree : row.sequence ∉ t.committed :=
    fun hmem => hopen.uncommitted ((h.mem_committed _).mpr hmem)
  have hadded := h.adds row hopen.uncommitted hopen.assigned
  refine hadded.carriedAlike (a := ()) ?_ ?_
  · rw [LogWrite.inMemory, MemoryLog.commit, max_eq_left hopen.assigned.2]
    rfl
  · rw [LogWrite.inTables, TableLog.commit, TableLog.call_eq h.opened, Timestamp.toMillis_ofMillis]
    exact TableLog.insert_new hfree

/-- Twins give up an assigned position, unless something is committed there. -/
theorem settle (h : Twin m t) {p : Position} (hp : 1 ≤ p ∧ p ≤ m.highest) (ms : Int) :
    CarriedAlike (.settle p) m t (.ofMillis ms) := by
  let row : EventRow := ⟨p, tombstoneType, [], ms, true⟩
  have htables : (LogWrite.settle p).inTables t (.ofMillis ms) = (.ok (), (t.insert row).2) := by
    rw [LogWrite.inTables, TableLog.settle, TableLog.call_eq h.opened, Timestamp.toMillis_ofMillis]
    rfl
  by_cases htaken : p ∈ m.committed
  · refine h.carriedAlike (a := ()) ?_ ?_
    · rw [LogWrite.inMemory, MemoryLog.settle, if_pos (MemoryLog.isCommitted_iff.mpr htaken)]
    · rw [htables, TableLog.insert_taken ((h.mem_committed p).mp htaken)]
  · have hfree : row.sequence ∉ t.committed := fun hmem => htaken ((h.mem_committed p).mpr hmem)
    refine (h.adds row htaken hp).carriedAlike (a := ()) ?_ ?_
    · rw [LogWrite.inMemory, MemoryLog.settle,
        if_neg fun hcommitted => htaken (MemoryLog.isCommitted_iff.mp hcommitted)]
      rfl
    · rw [htables, TableLog.insert_new hfree]

/-- Twins record the progress of a shard. -/
theorem persist (h : Twin m t) (shard : ShardName) (p : Position) (ms : Int) :
    CarriedAlike (.persist shard p) m t (.ofMillis ms) := by
  let row : Progress := ⟨shard.identity, p, some (.ofMillis ms)⟩
  have hrecorded : Twin { m with calls := m.calls + 1, progress := m.progress.record row }
      { t with progress := t.progress.upsert shard.identity p ms } :=
    { h with progress := h.progress.record shard.identity p ms }
  refine hrecorded.carriedAlike (a := some (.ofMillis ms)) ?_ ?_
  · simp only [LogWrite.inMemory, EventLog.persistMark, MemoryLog.persist, MemoryLog.call,
      h.healthy, or_true, if_true]
    rfl
  · simp only [LogWrite.inTables, EventLog.persistMark, TableLog.call_eq h.opened,
      TableLog.inMillis, Timestamp.toMillis_ofMillis]
    rfl

/-- Twins carry out alike whatever is allowed at a time in whole milliseconds. -/
theorem writes (h : Twin m t) {w : LogWrite} (hw : w.Allowed m) (ms : Int) :
    CarriedAlike w m t (.ofMillis ms) := by
  cases w with
  | reserve => exact h.reserve hw _
  | append eventType data => exact h.append hw eventType data ms
  | commit p eventType data => exact h.commit hw eventType data ms
  | settle p => exact h.settle hw ms
  | persist shard p => exact h.persist shard p ms

end Twin

/-! ## Histories -/

/-- What becomes of two empty logs to which the same is written. -/
inductive WrittenAlike : MemoryLog → TableLog → Prop where
  /-- Nothing has been written. -/
  | empty : WrittenAlike {} {}
  /-- The same is written to both logs at a time in whole milliseconds. -/
  | writes {m : MemoryLog} {t : TableLog} (h : WrittenAlike m t) {w : LogWrite} (hw : w.Allowed m)
    (ms : Int) : WrittenAlike (w.inMemory m (.ofMillis ms)).2 (w.inTables t (.ofMillis ms)).2
  /-- Something was asked in the meantime, which the log in memory has counted. -/
  | asked {m : MemoryLog} {t : TableLog} (h : WrittenAlike m t) (calls : ℕ) :
    WrittenAlike { m with calls := calls } t

/-- Logs to which the same was written hold the same. -/
theorem WrittenAlike.twin {m : MemoryLog} {t : TableLog} (h : WrittenAlike m t) : Twin m t := by
  induction h with
  | empty => exact twin_empty
  | writes _ hw ms ih => exact (ih.writes hw ms).twin
  | asked _ calls ih => exact { ih with }

/-- Let the same have been written to a log in memory and to a log in tables, both of them empty at
first. At any time in whole milliseconds both give the same answers to all that is asked, and both
carry out whatever may be written next, and answer it alike. -/
theorem sameAnswers_of_history {m : MemoryLog} {t : TableLog} (h : WrittenAlike m t) (ms : Int) :
    SameAnswers m t (.ofMillis ms) ∧ ∀ w : LogWrite, w.Allowed m →
      ∃ a, (w.inMemory m (.ofMillis ms)).1 = .ok a ∧ (w.inTables t (.ofMillis ms)).1 = .ok a :=
  ⟨h.twin.sameAnswers ms, fun _ hw => (h.twin.writes hw ms).answer⟩

/-- Position 1 is reserved, an event is appended at position 2, position 1 is given up, and progress
is recorded. The rows of the tables are not in the order of their positions, and yet the answers are
the same. -/
theorem sameAnswers_after_settling :
    ∃ (m : MemoryLog) (t : TableLog), WrittenAlike m t ∧ m.committed = [1, 2] ∧
      t.committed = [2, 1] ∧ SameAnswers m t (.ofMillis 4) := by
  have hreserved := WrittenAlike.empty.writes (w := .reserve) (show (0 : Int) + 1 < _ by decide) 0
  have happended := hreserved.writes (w := .append "e" []) (show (1 : Int) + 1 < _ by decide) 1
  have hsettled :=
    happended.writes (w := .settle 1) (show (1 : Int) ≤ 1 ∧ (1 : Int) ≤ 2 by decide) 2
  have hrecorded := hsettled.writes (w := .persist .highWater 2) trivial 3
  exact ⟨_, _, hrecorded, by decide +kernel, by decide +kernel,
    (sameAnswers_of_history hrecorded 4).1⟩

end Tidemark
