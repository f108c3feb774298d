import Mathlib.Data.List.Sort
import Tidemark.Log.Table
import Tidemark.Proofs.Log.Memory
import Tidemark.Rehearsal.Log

/-!
# What shards may rely on

A shard loads its progress, fetches events and records its progress. `LawfulLog` says what a log
must guarantee of these calls, in terms of the progress on record (`recorded`) and of the events
that can be handed out (`stored`). All logs of this library are lawful.
-/

namespace Tidemark

/-- The events of a list above a position and up to another one. -/
def eventsWithin (after upTo : Position) (events : List EventRecord) : List EventRecord :=
  events.filter fun e => decide (after < e.sequence) && decide (e.sequence ≤ upTo)

/-- Which events lie above a position and up to another one. -/
@[simp] theorem mem_eventsWithin {after upTo : Position} {events : List EventRecord}
    {e : EventRecord} :
    e ∈ eventsWithin after upTo events ↔ e ∈ events ∧ after < e.sequence ∧ e.sequence ≤ upTo := by
  simp [eventsWithin]

/-- Events up to a position come before those above it. -/
theorem eventsWithin_append {events : List EventRecord} {p q m : Position}
    (hascending : events.Pairwise (·.sequence < ·.sequence)) (hpq : p ≤ q) (hqm : q ≤ m) :
    eventsWithin p m events = eventsWithin p q events ++ eventsWithin q m events := by
  induction events with
  | nil => rfl
  | cons e es ih =>
    obtain ⟨hfirst, hrest⟩ := List.pairwise_cons.mp hascending
    unfold eventsWithin at ih ⊢
    simp only [List.filter_cons]
    by_cases hq : q < e.sequence
    · -- From here on, nothing lies at or below the position in between.
      have hnone :
          es.filter (fun e => decide (p < e.sequence) && decide (e.sequence ≤ q)) = [] := by
        refine List.filter_eq_nil_iff.mpr fun x hx => ?_
        simp [lt_trans hq (hfirst x hx)]
      rw [ih hrest, hnone]
      simp [hq, not_le.mpr hq, lt_of_le_of_lt hpq hq]
    · rw [ih hrest]
      have hle : e.sequence ≤ q := not_lt.mp hq
      by_cases hp : p < e.sequence <;> simp [hq, hle, hp, le_trans hle hqm]

/-- What shards see of a log. -/
class LogView (L : Type) where
  /-- The log is in order inside. -/
  Kept : L → Prop
  /-- The progress on record for an identity, zero if there is none. -/
  recorded : L → String → Position
  /-- The events that can be handed out, all those that are not tombstones. -/
  stored : L → List EventRecord

open LogView

/-- Shards see the same of two logs. -/
structure SameView {L : Type} [LogView L] (log log' : L) : Prop where
  kept : Kept log → Kept log'
  recorded : recorded log' = recorded log
  stored : stored log' = stored log

/-- Shards see the same of a log as of itself. -/
theorem SameView.refl {L : Type} [LogView L] (log : L) : SameView log log := ⟨id, rfl, rfl⟩

/-- A log whose calls for shards do what their names say. -/
class LawfulLog (L : Type) [EventLog L] extends LogView L where
  /-- The events are in the order of their positions. -/
  stored_pairwise {log : L} : Kept log → (stored log).Pairwise (·.sequence < ·.sequence)
  /-- Loading progress changes nothing. -/
  frame_load {shard : ShardName} {log log' : L} {now : Timestamp}
    {outcome : Outcome (Position × Option Timestamp)} :
    EventLog.lastPersistedMark shard log now = (outcome, log') → SameView log log'
  /-- The progress that is loaded is the one on record. -/
  load_eq {shard : ShardName} {log log' : L} {now : Timestamp} {p : Position}
    {updated : Option Timestamp} :
    EventLog.lastPersistedMark shard log now = (.ok (p, updated), log') →
      p = recorded log shard.identity
  /-- Fetching events changes nothing. -/
  frame_fetch {after upTo : Position} {limit : Nat} {log log' : L} {now : Timestamp}
    {outcome : Outcome (List EventRecord)} :
    EventLog.fetchEvents after upTo limit log now = (outcome, log') → SameView log log'
  /-- The events that are fetched are the first ones within the bounds. -/
  fetch_eq {after upTo : Position} {limit : Nat} {log log' : L} {now : Timestamp}
    {events : List EventRecord} :
    Kept log → EventLog.fetchEvents after upTo limit log now = (.ok events, log') →
      events = (eventsWithin after upTo (stored log)).take limit
  /-- Recording progress changes the progress of one identity and nothing else. -/
  persist_ok {shard : ShardName} {p : Position} {log log' : L} {now : Timestamp}
    {updated : Option Timestamp} :
    EventLog.persistMark shard p log now = (.ok updated, log') →
      (Kept log → Kept log') ∧
        recorded log' = Function.update (recorded log) shard.identity p ∧ stored log' = stored log
  /-- Progress that could not be recorded changes nothing. -/
  persist_error {shard : ShardName} {p : Position} {log log' : L} {now : Timestamp}
    {fault : Fault} :
    EventLog.persistMark shard p log now = (.error fault, log') → SameView log log'

/-- Where a change of the rows is seen under one identity only, so is the change of the positions on
record. -/
theorem fst_eq_update {found found' : String → Position × Option Timestamp} {identity : String}
    {p : Position} {updated : Option Timestamp}
    (h : ∀ i, found' i = if identity = i then (p, updated) else found i) :
    (fun i => (found' i).1) = Function.update (fun i => (found i).1) identity p := by
  funext i
  rw [h]
  by_cases hi : identity = i
  · subst hi
    rw [if_pos rfl, Function.update_self]
  · rw [if_neg hi, Function.update_of_ne (Ne.symm hi)]

/-! ## The log in memory -/

namespace MemoryLog

/-- An entry as it is handed to projections. -/
def toRecord (entry : Position × Entry) : EventRecord :=
  ⟨entry.1, entry.2.eventType, entry.2.data, entry.2.timestamp⟩

/-- The events of a log that are not tombstones. -/
def storedEvents (log : MemoryLog) : List EventRecord :=
  (log.events.filter (!·.2.tombstone)).map toRecord

/-- What is read between two positions of ascending events is what lies within the bounds. -/
theorem eventsIn_eq {log : MemoryLog} (h : Ascending log.events) (after upTo : Position)
    (limit : Nat) :
    log.eventsIn after upTo limit = (eventsWithin after upTo log.storedEvents).take limit := by
  -- Along ascending events both bounds are tests that can only change once.
  have hdrop : log.events.dropWhile (·.1 ≤ after) =
      log.events.filter (fun x => !decide (x.1 ≤ after)) :=
    dropWhile_eq_filter (h.imp fun {a b} hab hb => by
      simp only [decide_eq_true_eq] at hb ⊢
      exact le_trans (le_of_lt hab) hb)
  have htake : (log.events.dropWhile (·.1 ≤ after)).takeWhile (·.1 ≤ upTo) =
      (log.events.dropWhile (·.1 ≤ after)).filter (·.1 ≤ upTo) :=
    takeWhile_eq_filter ((h.sublist (List.dropWhile_sublist _)).imp fun {a b} hab hb => by
      simp only [decide_eq_true_eq] at hb ⊢
      exact le_trans (le_of_lt hab) hb)
  unfold eventsIn eventsWithin storedEvents
  rw [htake, hdrop]
  simp only [List.filter_filter, List.filter_map, ← List.map_take]
  change ((_ : List _).take limit).map toRecord = _
  congr 2
  refine List.filter_congr fun x _ => ?_
  simp only [Function.comp_apply, toRecord, ← decide_not, not_le]
  ac_rfl

instance : LogView MemoryLog where
  Kept log := Ascending log.events
  recorded log identity := (log.progress.find identity).1
  stored := storedEvents

/-- Shards see the same of logs of the same contents. -/
theorem SameContents.sameView {log log' : MemoryLog} (h : SameContents log log') :
    SameView log log' := by
  refine ⟨fun hk => ?_, ?_, ?_⟩
  · show Ascending log'.events
    rw [h.events]; exact hk
  · show (fun i => (log'.progress.find i).1) = fun i => (log.progress.find i).1
    rw [h.progress]
  · show log'.storedEvents = log.storedEvents
    rw [storedEvents, h.events, storedEvents]

instance : LawfulLog MemoryLog where
  stored_pairwise h := List.pairwise_map.mpr (h.filter _)
  frame_load h := (sameContents_of_ask h).sameView
  load_eq h := by
    rw [← (sameContents_of_ask h).sameView.recorded]
    exact congrArg Prod.fst (Except.ok.inj (answer_of_ask h)).symm
  frame_fetch h := (sameContents_of_ask h).sameView
  fetch_eq hk h := by
    have hs := (sameContents_of_ask h).sameView
    rw [← hs.stored, ← Except.ok.inj (answer_of_ask h)]
    exact eventsIn_eq (hs.kept hk) _ _ _
  persist_ok h := by
    obtain ⟨-, hevents, hprogress⟩ := persist_eq_ok h
    refine ⟨fun hk => ?_, ?_, ?_⟩
    · show Ascending _
      rw [hevents]; exact hk
    · show (fun i => (ProgressRows.find _ i).1) = Function.update (fun i => _) _ _
      rw [hprogress]; exact fst_eq_update (ProgressRows.find_record _ _)
    · show storedEvents _ = storedEvents _
      rw [storedEvents, hevents, storedEvents]
  persist_error h := (sameContents_of_persist h).sameView

end MemoryLog

/-! ## The log in tables -/

namespace TableLog

/-- A row as it is handed to projections. -/
def toRecord (row : EventRow) : EventRecord :=
  ⟨row.sequence, row.eventType, row.data, .ofMillis row.millis⟩

/-- Some rows in the order of their positions. -/
def inOrder (rows : List EventRow) : List EventRow :=
  rows.mergeSort fun a b => decide (a.sequence ≤ b.sequence)

/-- No two rows have the same position. -/
def Distinct (rows : List EventRow) : Prop := rows.Pairwise (·.sequence ≠ ·.sequence)

/-- Rows of distinct positions are strictly ascending once they are in order. -/
theorem inOrder_pairwise {rows : List EventRow} (h : Distinct rows) :
    (inOrder rows).Pairwise (·.sequence < ·.sequence) := by
  have hle : (inOrder rows).Pairwise fun a b => decide (a.sequence ≤ b.sequence) = true :=
    List.pairwise_mergeSort (fun a b c hab hbc => by
      simp only [decide_eq_true_eq] at *; exact le_trans hab hbc)
      (fun a b => by simpa using le_total a.sequence b.sequence) rows
  have hne : (inOrder rows).Pairwise (·.sequence ≠ ·.sequence) :=
    (List.mergeSort_perm rows _).symm.pairwise h fun hab => Ne.symm hab
  exact (hle.and hne).imp fun {a b} hab => lt_of_le_of_ne (by simpa using hab.1) hab.2

/-- Rows of distinct positions can be put in order before or after some are left out. -/
theorem filter_inOrder {rows : List EventRow} (h : Distinct rows) (P : EventRow → Bool) :
    (inOrder rows).filter P = inOrder (rows.filter P) := by
  have hperm : ((inOrder rows).filter P).Perm (inOrder (rows.filter P)) :=
    ((List.mergeSort_perm rows _).filter P).trans (List.mergeSort_perm _ _).symm
  -- Two ascending lists of the same rows are the same list.
  refine hperm.eq_of_pairwise (fun a b _ _ hab hba => ?_) ((inOrder_pairwise h).filter P)
    (inOrder_pairwise (h.filter P))
  exact absurd hab (lt_asymm hba)

/-- The events of a log that are not tombstones. -/
def storedEvents (log : TableLog) : List EventRecord :=
  (inOrder (log.events.filter (!·.tombstone))).map toRecord

/-- What is read between two positions is what lies within the bounds. -/
theorem eventsIn_eq {log : TableLog} (h : Distinct log.events) (after upTo : Position)
    (limit : Nat) :
    log.eventsIn after upTo limit = (eventsWithin after upTo log.storedEvents).take limit := by
  unfold eventsIn eventsWithin storedEvents
  rw [List.filter_map, filter_inOrder (h.filter _), List.filter_filter, ← List.map_take]
  rfl

/-- A call that changes nothing has not changed the log. -/
theorem eq_of_ask {α : Type} {answer : TableLog → Timestamp → α} {log log' : TableLog}
    {now : Timestamp} {outcome : Outcome α} (h : ask answer log now = (outcome, log')) :
    log' = log := by
  simp only [ask, call] at h
  split_ifs at h <;> cases h <;> rfl

/-- An answered call was answered from the log. -/
theorem answer_of_ask {α : Type} {answer : TableLog → Timestamp → α} {log log' : TableLog}
    {now : Timestamp} {a : α} (h : ask answer log now = (.ok a, log')) : a = answer log now := by
  simp only [ask, call] at h
  split_ifs at h <;> cases h
  rfl

instance : LogView TableLog where
  Kept log := Distinct log.events
  recorded log identity := (log.progress.find identity).1
  stored := storedEvents

instance : LawfulLog TableLog where
  stored_pairwise h := List.pairwise_map.mpr (inOrder_pairwise (h.filter _))
  frame_load h := eq_of_ask h ▸ .refl _
  load_eq h := congrArg Prod.fst (answer_of_ask h)
  frame_fetch h := eq_of_ask h ▸ .refl _
  fetch_eq hk h := (answer_of_ask h).trans (eventsIn_eq hk _ _ _)
  persist_ok h := by
    simp only [EventLog.persistMark, call] at h
    split_ifs at h <;> cases h
    exact ⟨id, fst_eq_update (ProgressTable.find_upsert _ _ _ _), rfl⟩
  persist_error h := by
    simp only [EventLog.persistMark, call] at h
    split_ifs at h <;> cases h
    exact .refl _

end TableLog

/-! ## The log that follows a script -/

namespace Rehearsal.FaultyLog

instance : LogView FaultyLog where
  Kept log := LogView.Kept log.inner
  recorded log := LogView.recorded log.inner
  stored log := LogView.stored log.inner

/-- Shards see the same of logs around the same log in memory. -/
theorem sameView_of_inner {log log' : FaultyLog} (h : SameView log.inner log'.inner) :
    SameView log log' := ⟨h.kept, h.recorded, h.stored⟩

/-- Noting the outcome of a call changes neither the outcome nor the log in memory. -/
theorem call_of_noting {α : Type} {note : Timestamp → Outcome α → FaultyLog → FaultyLog}
    {call : LogCall FaultyLog α} {log log' : FaultyLog} {now : Timestamp} {outcome : Outcome α}
    (h : noting note call log now = (outcome, log'))
    (hnote : ∀ now outcome log, (note now outcome log).inner = log.inner) :
    ∃ log₁, call log now = (outcome, log₁) ∧ log'.inner = log₁.inner := by
  unfold noting at h
  split at h
  · cases h
    exact ⟨_, ‹_›, rfl⟩
  · obtain ⟨rfl, rfl⟩ := Prod.mk.inj h
    exact ⟨_, ‹_›, hnote _ _ _⟩

/-- A call of the log in memory happens to the log in memory. -/
theorem inner_of_within {α : Type} {call : LogCall MemoryLog α} {log log' : FaultyLog}
    {now : Timestamp} {outcome : Outcome α} (h : within call log now = (outcome, log')) :
    call log.inner now = (outcome, log'.inner) := by
  simp only [within] at h
  cases h
  rfl

/-- Progress that is loaded is loaded from the log in memory, unless the call fails at once. -/
theorem load_cases {shard : ShardName} {log log' : FaultyLog} {now : Timestamp}
    {outcome : Outcome (Position × Option Timestamp)}
    (h : load shard log now = (outcome, log')) :
    EventLog.lastPersistedMark shard log.inner now = (outcome, log'.inner) ∨
      (∃ fault, outcome = .error fault) ∧ log'.inner = log.inner := by
  unfold load at h
  obtain ⟨log₁, hcall, hinner⟩ := call_of_noting h fun _ _ _ => rfl
  split_ifs at hcall
  · exact .inl (hinner ▸ inner_of_within hcall)
  · cases hcall
    exact .inr ⟨⟨_, rfl⟩, hinner⟩

/-- Events that are fetched are fetched from the log in memory, unless the call fails at once. -/
theorem fetch_cases {after upTo : Position} {limit : Nat} {log log' : FaultyLog} {now : Timestamp}
    {outcome : Outcome (List EventRecord)}
    (h : fetch after upTo limit log now = (outcome, log')) :
    EventLog.fetchEvents after upTo limit log.inner now = (outcome, log'.inner) ∨
      (∃ fault, outcome = .error fault) ∧ log'.inner = log.inner := by
  unfold fetch at h
  obtain ⟨log₁, hcall, hinner⟩ := call_of_noting h fun _ _ _ => rfl
  split_ifs at hcall
  · exact .inl (hinner ▸ inner_of_within hcall)
  · cases hcall
    exact .inr ⟨⟨_, rfl⟩, hinner⟩

/-- Progress is recorded in the log in memory. -/
theorem inner_of_persist {shard : ShardName} {p : Position} {log log' : FaultyLog}
    {now : Timestamp} {outcome : Outcome (Option Timestamp)}
    (h : persist shard p log now = (outcome, log')) :
    EventLog.persistMark shard p log.inner now = (outcome, log'.inner) := by
  simp only [persist] at h
  split_ifs at h
  all_goals
    obtain ⟨log₁, hcall, hinner⟩ := call_of_noting h fun _ _ _ => rfl
    exact hinner ▸ inner_of_within hcall

instance : LawfulLog FaultyLog where
  stored_pairwise h := LawfulLog.stored_pairwise (L := MemoryLog) h
  frame_load h := by
    rcases load_cases h with h | ⟨-, h⟩
    · exact sameView_of_inner (LawfulLog.frame_load h)
    · exact sameView_of_inner (h ▸ .refl _)
  load_eq h := by
    rcases load_cases h with h | ⟨⟨_, h⟩, -⟩
    · exact LawfulLog.load_eq h
    · cases h
  frame_fetch h := by
    rcases fetch_cases h with h | ⟨-, h⟩
    · exact sameView_of_inner (LawfulLog.frame_fetch h)
    · exact sameView_of_inner (h ▸ .refl _)
  fetch_eq hk h := by
    rcases fetch_cases h with h | ⟨⟨_, h⟩, -⟩
    · exact LawfulLog.fetch_eq hk h
    · cases h
  persist_ok h := LawfulLog.persist_ok (inner_of_persist h)
  persist_error h := sameView_of_inner (LawfulLog.persist_error (inner_of_persist h))

end Rehearsal.FaultyLog

end Tidemark
