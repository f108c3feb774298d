import Tidemark.Proofs.Log.Searched

/-!
# What others may do to a log

Writers that keep to the rules commit reserved positions only, and each of them once (`Wrote`).
`EditedLog` says of a log what anybody may do to it except record the high water mark: write at any
position from 1 on, whether or not it was reserved, write there again, record the progress of
shards, and make calls fail. Nothing of this takes a committed position back. The logs in memory and
in tables are such logs.
-/

namespace Tidemark

open LogView SearchedLog

/-- Writers have used no position below 1. -/
structure Written.Positive (w : Written) : Prop where
  assigned : 0 ≤ w.assigned
  committed : ∀ p ∈ w.committed, 1 ≤ p

/-- A log that others edit without recording the high water mark. -/
class EditedLog (L : Type) [EventLog L] extends SearchedLog L where
  /-- What others may do to the log at once. -/
  Edited : L → L → Prop
  /-- Others keep a log in order. -/
  kept_of_edited {log log' : L} : Edited log log' → Kept log → Kept log'
  /-- Others leave the high water mark on record. -/
  highWater_of_edited {log log' : L} : Edited log log' → highWater log' = highWater log
  /-- Others take no committed position back. -/
  subset_of_edited {log log' : L} : Edited log log' →
    (written log).committed ⊆ (written log').committed
  /-- Others use no position below 1. -/
  positive_of_edited {log log' : L} : Edited log log' → (written log).Positive →
    (written log').Positive

/-! ## The log in memory -/

namespace MemoryLog

/-- What others may do to a log in memory. -/
inductive Edited (log : MemoryLog) : MemoryLog → Prop where
  /-- A position is reserved. -/
  | reserved {p : Position} {log' : MemoryLog} (h : log.reserve = .ok (p, log')) : Edited log log'
  /-- An event is committed at a position reserved with it. -/
  | appended {p : Position} {log' : MemoryLog} (e : Entry) (h : log.append e = .ok (p, log')) :
    Edited log log'
  /-- An event is committed, in place of what is committed there. -/
  | committed {p : Position} (e : Entry) (hp : 1 ≤ p) : Edited log (log.commit p e)
  /-- Positions are reserved up to one of them. -/
  | raised {p : Position} (hp : 1 ≤ p) : Edited log (log.setHighest p)
  /-- A position is given up, unless something is committed there. -/
  | settled {p : Position} (now : Timestamp) (hp : 1 ≤ p) : Edited log (log.settle p now)
  /-- The progress of a shard is recorded, or cannot be. -/
  | recorded {shard : ShardName} {p : Position} {now : Timestamp}
    {outcome : Outcome (Option Timestamp)} {log' : MemoryLog}
    (hshard : shard.identity ≠ ShardName.highWater.identity)
    (h : EventLog.persistMark shard p log now = (outcome, log')) : Edited log log'
  /-- Calls are made or made to fail, so that the counters of the log change. -/
  | counted (calls failNext failPersists : ℕ) :
    Edited log { log with calls := calls, failNext := failNext, failPersists := failPersists }

/-- What becomes of a log in memory that others edit: its events stay or an entry is put, the
highest position does not fall, and the mark on record stays. -/
structure Touched (log log' : MemoryLog) : Prop where
  highest : log.highest ≤ log'.highest
  events : log'.events = log.events ∨
    ∃ p e, (0 ≤ log.highest → 1 ≤ p) ∧ log'.events = put p e log.events
  mark : log'.mark = log.mark

/-- Whoever edits a log in memory does no more than that. -/
theorem Edited.touched {log log' : MemoryLog} (h : Edited log log') : Touched log log' := by
  cases h with
  | reserved h =>
    obtain ⟨rfl, rfl⟩ := reserve_eq_ok h
    exact ⟨by dsimp only; lia, .inl rfl, rfl⟩
  | appended e h =>
    obtain ⟨⟨q, reserved⟩, hr, h⟩ := bind_eq_ok.mp h
    obtain ⟨rfl, rfl⟩ := reserve_eq_ok hr
    obtain ⟨rfl, rfl⟩ := Prod.mk.inj (Except.ok.inj h)
    -- The position after the highest one is positive unless the highest one is not.
    have hpos : 0 ≤ log.highest → 1 ≤ log.highest + 1 := fun h => by lia
    exact ⟨by dsimp only; lia, .inr ⟨_, e, hpos, rfl⟩, rfl⟩
  | @committed p e hp => exact ⟨le_max_left _ _, .inr ⟨p, e, fun _ => hp, rfl⟩, rfl⟩
  | raised hp => exact ⟨le_max_left _ _, .inl rfl, rfl⟩
  | @settled p now hp =>
    unfold settle
    split_ifs with hcommitted
    · exact ⟨le_refl _, .inl rfl, rfl⟩
    · exact ⟨le_refl _, .inr ⟨p, _, fun _ => hp, rfl⟩, rfl⟩
  | @recorded shard p now outcome log' hshard h =>
    cases outcome with
    | error fault =>
      have hsame := sameContents_of_persist h
      exact ⟨hsame.highest.ge, .inl hsame.events, hsame.mark⟩
    | ok updated =>
      obtain ⟨hhigh, hevents, hprogress⟩ := persist_eq_ok h
      refine ⟨hhigh.ge, .inl hevents, ?_⟩
      unfold MemoryLog.mark
      rw [hprogress, ProgressRows.find_record, if_neg hshard]
  | counted calls failNext failPersists => exact ⟨le_refl _, .inl rfl, rfl⟩

instance : EditedLog MemoryLog where
  Edited := Edited
  kept_of_edited {log log'} h hk := by
    show Ascending log'.events
    rcases h.touched.events with heq | ⟨p, e, -, heq⟩
    · rw [heq]; exact hk
    · rw [heq]; exact put_ascending hk
  highWater_of_edited h := h.touched.mark
  subset_of_edited {log log'} h q hq := by
    show q ∈ log'.committed
    rcases h.touched.events with heq | ⟨p, e, -, heq⟩
    · rw [committed, heq]; exact hq
    · rw [committed, heq, mem_fst_put]; exact .inr hq
  positive_of_edited {log log'} h hpos := by
    have htouched := h.touched
    have hcounted : 0 ≤ log.highest := hpos.assigned
    refine ⟨le_trans hcounted htouched.highest, fun q hq => ?_⟩
    have hq : q ∈ log'.committed := hq
    rcases htouched.events with heq | ⟨p, e, hp, heq⟩
    · rw [committed, heq] at hq
      exact hpos.committed q hq
    · rw [committed, heq, mem_fst_put] at hq
      rcases hq with rfl | hq
      · exact hp hcounted
      · exact hpos.committed q hq

end MemoryLog

/-! ## The log in tables -/

namespace TableLog

/-- What others may do to a log in tables. Any of the calls may be refused. -/
inductive Edited (log : TableLog) : TableLog → Prop where
  /-- A position is reserved. -/
  | reserved {now : Timestamp} {outcome : Outcome Position} {log' : TableLog}
    (h : reserve log now = (outcome, log')) : Edited log log'
  /-- An event is committed at a position reserved with it. -/
  | appended {now : Timestamp} {outcome : Outcome Position} {log' : TableLog} (eventType : String)
    (data : List UInt8) (h : append eventType data log now = (outcome, log')) : Edited log log'
  /-- An event is committed, unless the position is taken. -/
  | committed {p : Position} {now : Timestamp} {outcome : Outcome Unit} {log' : TableLog}
    (eventType : String) (data : List UInt8) (hp : 1 ≤ p)
    (h : commit p eventType data log now = (outcome, log')) : Edited log log'
  /-- A position is given up, unless it is taken. -/
  | settled {p : Position} {now : Timestamp} {outcome : Outcome Unit} {log' : TableLog} (hp : 1 ≤ p)
    (h : settle p log now = (outcome, log')) : Edited log log'
  /-- The progress of a shard is recorded. -/
  | recorded {shard : ShardName} {p : Position} {now : Timestamp}
    {outcome : Outcome (Option Timestamp)} {log' : TableLog}
    (hshard : shard.identity ≠ ShardName.highWater.identity)
    (h : EventLog.persistMark shard p log now = (outcome, log')) : Edited log log'
  /-- The tables are closed, and every call fails until they are opened anew. -/
  | closed : Edited log log.close
  /-- The tables are opened anew from a file. -/
  | reopened : Edited log (log.reopen false)

/-- What becomes of a log in tables that others edit: its rows stay or one is added at a position
that was not taken, the counter does not fall, and the mark on record stays. -/
structure Touched (log log' : TableLog) : Prop where
  counter : log.counter ≤ log'.counter
  events : log'.events = log.events ∨
    ∃ row, (0 ≤ log.counter → 1 ≤ row.sequence) ∧ row.sequence ∉ log.committed ∧
      log'.events = log.events ++ [row]
  mark : (log'.progress.find ShardName.highWater.identity).1 =
    (log.progress.find ShardName.highWater.identity).1

/-- A log that nobody edits is not touched. -/
theorem Touched.refl (log : TableLog) : Touched log log := ⟨le_refl _, .inl rfl, rfl⟩

/-- A row that is added, or cannot be, only touches the log. -/
theorem touched_insert (log : TableLog) {row : EventRow}
    (hrow : 0 ≤ log.counter → 1 ≤ row.sequence) :
    Touched log (log.insert row).2 := by
  rcases insert_cases log row with ⟨fault, heq⟩ | ⟨hnew, heq⟩
  · rw [heq]
    exact .refl log
  · rw [heq]
    exact ⟨le_refl _, .inr ⟨row, hrow, hnew, rfl⟩, rfl⟩

/-- A call that is refused does not touch the log, and one that is served touches it as it is
served. -/
theorem touched_of_call {α : Type} {serve : LogCall TableLog α} {log log' : TableLog}
    {now : Timestamp} {outcome : Outcome α} (h : call serve log now = (outcome, log'))
    (hserve : Touched log (serve log now).2) : Touched log log' := by
  unfold call at h
  split_ifs at h
  · cases h
    exact .refl log
  · rwa [h] at hserve

/-- Whoever edits a log in tables does no more than touch it. -/
theorem Edited.touched {log log' : TableLog} (h : Edited log log') : Touched log log' := by
  cases h with
  | reserved h => exact touched_of_call h ⟨by dsimp only; lia, .inl rfl, rfl⟩
  | @appended now outcome log' eventType data h =>
    refine touched_of_call h ?_
    dsimp only
    rcases insert_cases { log with counter := log.counter + 1 }
      ⟨log.counter + 1, eventType, data, now.toMillis, false⟩ with ⟨fault, heq⟩ | ⟨hnew, heq⟩
    · rw [heq]
      exact .refl log
    · rw [heq]
      exact ⟨by dsimp only; lia, .inr ⟨_, fun _ => by dsimp only; lia, hnew, rfl⟩, rfl⟩
  | committed eventType data hp h => exact touched_of_call h (touched_insert log fun _ => hp)
  | settled hp h => exact touched_of_call h (touched_insert log fun _ => hp)
  | recorded hshard h =>
    refine touched_of_call h ⟨le_refl _, .inl rfl, ?_⟩
    dsimp only
    rw [ProgressTable.find_upsert, if_neg hshard]
  | closed => exact ⟨le_refl _, .inl rfl, rfl⟩
  | reopened => exact ⟨le_refl _, .inl rfl, rfl⟩

instance : EditedLog TableLog where
  Edited := Edited
  kept_of_edited {log log'} h hk := by
    show Distinct log'.events
    rcases h.touched.events with heq | ⟨row, -, hnew, heq⟩
    · rw [heq]; exact hk
    · rw [heq, Distinct, List.pairwise_append]
      refine ⟨hk, List.pairwise_singleton _ _, fun a ha b hb hab => hnew ?_⟩
      obtain rfl := List.mem_singleton.mp hb
      exact hab ▸ List.mem_map_of_mem ha
  highWater_of_edited h := h.touched.mark
  subset_of_edited {log log'} h := by
    show log.events.map (·.sequence) ⊆ log'.events.map (·.sequence)
    rcases h.touched.events with heq | ⟨row, -, -, heq⟩
    · rw [heq]
      exact List.Subset.refl _
    · rw [heq, List.map_append]
      exact List.subset_append_left _ _
  positive_of_edited {log log'} h hpos := by
    have htouched := h.touched
    have hcounted : 0 ≤ log.counter := hpos.assigned
    refine ⟨le_trans hcounted htouched.counter, fun q hq => ?_⟩
    have hq : q ∈ log'.events.map (·.sequence) := hq
    rcases htouched.events with heq | ⟨row, hrow, -, heq⟩
    · rw [heq] at hq
      exact hpos.committed q hq
    · rw [heq, List.map_append, List.mem_append] at hq
      rcases hq with hq | hq
      · exact hpos.committed q hq
      · obtain rfl : q = row.sequence := by simpa using hq
        exact hrow hcounted

end TableLog

end Tidemark
