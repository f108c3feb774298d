import Tidemark.Proofs.Log.Alike

/-!
# Writes to the log in tables

A write to a log in tables is refused, and then leaves all of its tables as they are, or everything
is done that belongs to it (`LogWrite.Done`). `LogWrite.refusal` says which of them are refused: a
closed log refuses everything, and an open one refuses to commit an event at a taken position, also
at the one that an append would reserve.

Let a log see any history of writes, and be closed and opened anew in between. The positions that
are handed out ascend strictly, so that none of them is handed out twice, however many writes were
refused, and the rows of the events stay as they are (`TableLog.all_or_nothing`).
-/

namespace Tidemark

/-! ## One write -/

/-- A row is refused if its position is taken. -/
theorem TableLog.insert_refused {log : TableLog} {row : EventRow}
    (h : row.sequence ∈ log.committed) :
    log.insert row = (.error (.error (.store .positionTaken)), log) := by
  have htaken : log.isTaken row.sequence := by simpa [isTaken, committed] using h
  exact if_pos htaken

namespace LogWrite

/-- The position at which a log in tables would commit an event for a write. -/
def target (log : TableLog) : LogWrite → Option Position
  | append _ _ => some (log.counter + 1)
  | commit p _ _ => some p
  | reserve | settle _ | persist _ _ => none

/-- Why a log in tables refuses a write, if it does. -/
def refusal (log : TableLog) (w : LogWrite) : Option StoreCause :=
  if log.closed then some .poolClosed
  else if ∃ p ∈ w.target log, p ∈ log.committed then some .positionTaken
  else none

/-- All that a log in tables does for a write, and what it answers. -/
inductive Done (log : TableLog) (now : Timestamp) :
    (w : LogWrite) → w.Answer → TableLog → Prop where
  /-- The counter goes up to the position that is handed out. -/
  | reserved : Done log now .reserve (log.counter + 1) { log with counter := log.counter + 1 }
  /-- The counter goes up to the position that is handed out, and an event is added there. -/
  | appended {eventType : String} {data : List UInt8} (hnew : log.counter + 1 ∉ log.committed) :
    Done log now (.append eventType data) (log.counter + 1)
      { log with
        counter := log.counter + 1
        events := log.events ++ [⟨log.counter + 1, eventType, data, now.toMillis, false⟩] }
  /-- An event is added. -/
  | committed {p : Position} {eventType : String} {data : List UInt8} (hnew : p ∉ log.committed) :
    Done log now (.commit p eventType data) ()
      { log with events := log.events ++ [⟨p, eventType, data, now.toMillis, false⟩] }
  /-- A tombstone is added. -/
  | settled {p : Position} (hnew : p ∉ log.committed) :
    Done log now (.settle p) ()
      { log with events := log.events ++ [⟨p, tombstoneType, [], now.toMillis, true⟩] }
  /-- A position that is taken need not be given up. -/
  | kept {p : Position} (htaken : p ∈ log.committed) : Done log now (.settle p) () log
  /-- The row of a shard is added or written anew. -/
  | persisted {shard : ShardName} {p : Position} :
    Done log now (.persist shard p) (some (TableLog.inMillis now))
      { log with
        progress := log.progress.upsert shard.identity p now.toMillis }

variable {log log' : TableLog} {now : Timestamp} {w : LogWrite}

/-- A write that is refused leaves the log as it is. -/
theorem inTables_of_refusal {cause : StoreCause} (h : w.refusal log = some cause)
    (now : Timestamp) : w.inTables log now = (.error (.error (.store cause)), log) := by
  unfold refusal at h
  split_ifs at h with hclosed htaken <;> cases h
  · cases w <;> exact if_pos hclosed
  · have hopen : log.closed = false := by simpa using hclosed
    obtain ⟨p, htarget, hp⟩ := htaken
    cases w with
    | append eventType data =>
      cases htarget
      have hrefused := @TableLog.insert_refused { log with counter := log.counter + 1 }
        ⟨log.counter + 1, eventType, data, now.toMillis, false⟩ hp
      rw [inTables, TableLog.append, TableLog.call_eq hopen]
      dsimp only
      rw [hrefused]
      rfl
    | commit q eventType data =>
      cases htarget
      rw [inTables, TableLog.commit, TableLog.call_eq hopen]
      apply TableLog.insert_refused
      exact hp
    | reserve | settle _ | persist _ _ => cases htarget

/-- Everything is done for a write that is not refused. -/
theorem done_of_refusal (h : w.refusal log = none) (now : Timestamp) :
    ∃ a log', w.inTables log now = (.ok a, log') ∧ Done log now w a log' := by
  unfold refusal at h
  split_ifs at h with hclosed hfree
  have hopen : log.closed = false := by simpa using hclosed
  cases w with
  | reserve =>
    refine ⟨_, _, ?_, .reserved⟩
    rw [inTables, TableLog.reserve, TableLog.call_eq hopen]
    rfl
  | append eventType data =>
    have hnew : log.counter + 1 ∉ log.committed := fun hmem => hfree ⟨_, rfl, hmem⟩
    have hadded := @TableLog.insert_new { log with counter := log.counter + 1 }
      ⟨log.counter + 1, eventType, data, now.toMillis, false⟩ hnew
    refine ⟨_, _, ?_, .appended hnew⟩
    rw [inTables, TableLog.append, TableLog.call_eq hopen]
    dsimp only
    rw [hadded]
    rfl
  | commit p eventType data =>
    have hnew : p ∉ log.committed := fun hmem => hfree ⟨_, rfl, hmem⟩
    refine ⟨_, _, ?_, .committed hnew⟩
    rw [inTables, TableLog.commit, TableLog.call_eq hopen]
    apply TableLog.insert_new
    exact hnew
  | settle p =>
    let row : EventRow := ⟨p, tombstoneType, [], now.toMillis, true⟩
    have hserved : (settle p).inTables log now = (.ok (), (log.insert row).2) := by
      rw [inTables, TableLog.settle, TableLog.call_eq hopen]
      rfl
    refine ⟨_, _, hserved, ?_⟩
    by_cases htaken : row.sequence ∈ log.committed
    · rw [TableLog.insert_refused htaken]
      exact .kept htaken
    · rw [TableLog.insert_new htaken]
      exact .settled htaken
  | persist shard p =>
    refine ⟨_, _, ?_, .persisted⟩
    rw [inTables, EventLog.persistMark]
    exact TableLog.call_eq hopen now

/-- The position that is handed out with the answer to a write. -/
def handedOut : (w : LogWrite) → Outcome w.Answer → Option Position
  | reserve, answer | append _ _, answer => answer.toOption
  | commit _ _ _, _ | settle _, _ | persist _ _, _ => none

/-- What is done for a write lets the counter rise to the position that is handed out, if one is,
and stay otherwise, and keeps all rows of events. -/
theorem Done.ascends {a : w.Answer} (h : Done log now w a log') :
    (∀ p ∈ w.handedOut (.ok a), log.counter < p) ∧
      log'.counter = (w.handedOut (.ok a)).getD log.counter ∧ log.events <+: log'.events := by
  have hnext : ∀ p ∈ some (log.counter + 1), log.counter < p := fun p hp => by
    cases hp
    lia
  cases h with
  | reserved => exact ⟨hnext, rfl, List.prefix_rfl⟩
  | appended => exact ⟨hnext, rfl, List.prefix_append _ _⟩
  | committed | settled => exact ⟨nofun, rfl, List.prefix_append _ _⟩
  | kept | persisted => exact ⟨nofun, rfl, List.prefix_rfl⟩

end LogWrite

/-! ## Histories -/

namespace TableLog

/-- What happens to a log in tables that are kept in a file. -/
inductive Move where
  /-- Something is written at a time. -/
  | write (w : LogWrite) (now : Timestamp)
  /-- The tables are let go of. -/
  | close
  /-- The tables are opened anew. -/
  | reopen

/-- The position that a move hands out, and what becomes of the log. -/
def play (log : TableLog) : Move → Option Position × TableLog
  | .write w now => (w.handedOut (w.inTables log now).1, (w.inTables log now).2)
  | .close => (none, log.close)
  | .reopen => (none, log.reopen false)

/-- The positions that are handed out in a history, one after the other, and what becomes of the
log. -/
def playAll (log : TableLog) : List Move → List Position × TableLog
  | [] => ([], log)
  | m :: rest =>
    let after := (log.play m).2.playAll rest
    ((log.play m).1.toList ++ after.1, after.2)

/-- A move hands out a position above the counter, which rises to it, or none and lets the counter
stay. It keeps all rows of events. -/
theorem play_ascends (log : TableLog) (m : Move) :
    (∀ p ∈ (log.play m).1, log.counter < p) ∧
      (log.play m).2.counter = (log.play m).1.getD log.counter ∧
      log.events <+: (log.play m).2.events := by
  cases m with
  | write w now =>
    simp only [play]
    cases hrefusal : w.refusal log with
    | some cause =>
      rw [LogWrite.inTables_of_refusal hrefusal]
      cases w <;> exact ⟨nofun, rfl, List.prefix_rfl⟩
    | none =>
      obtain ⟨a, log', heq, hdone⟩ := LogWrite.done_of_refusal hrefusal now
      rw [heq]
      exact hdone.ascends
  | close | reopen => exact ⟨nofun, rfl, List.prefix_rfl⟩

/-- In every history the positions that are handed out ascend strictly from the counter on, and the
rows of events are only added to. -/
theorem playAll_ascends (log : TableLog) (moves : List Move) :
    (log.playAll moves).1.Pairwise (· < ·) ∧
      (∀ p ∈ (log.playAll moves).1, log.counter < p ∧ p ≤ (log.playAll moves).2.counter) ∧
      log.counter ≤ (log.playAll moves).2.counter ∧
      log.events <+: (log.playAll moves).2.events := by
  induction moves generalizing log with
  | nil => exact ⟨.nil, by simp [playAll], le_refl _, List.prefix_rfl⟩
  | cons m rest ih =>
    obtain ⟨hnew, hcounter, hevents⟩ := log.play_ascends m
    obtain ⟨hsorted, hrange, hrises, hkept⟩ := ih (log.play m).2
    simp only [playAll]
    cases hp : (log.play m).1 with
    | none =>
      rw [hp, Option.getD_none] at hcounter
      rw [hcounter] at hrange hrises
      exact ⟨hsorted, hrange, hrises, hevents.trans hkept⟩
    | some p =>
      rw [hp] at hnew
      rw [hp, Option.getD_some] at hcounter
      rw [hcounter] at hrange hrises
      have hlt : log.counter < p := hnew p rfl
      refine ⟨List.pairwise_cons.mpr ⟨fun q hq => (hrange q hq).1, hsorted⟩, ?_, by lia,
        hevents.trans hkept⟩
      intro q hq
      rcases List.mem_cons.mp hq with rfl | hq
      · exact ⟨hlt, hrises⟩
      · exact ⟨hlt.trans (hrange q hq).1, (hrange q hq).2⟩

/-- Let a log in tables see any history of writes, served and refused, and let it be closed and
opened anew in between. The positions handed out by reserving and appending ascend strictly over the
whole history, and the rows of events that were there are still there, unchanged and in front of all
later ones. A further write is refused, and then leaves all tables as they are, or everything that
belongs to it is done. -/
theorem all_or_nothing (log : TableLog) (moves : List Move) (w : LogWrite) (now : Timestamp) :
    (log.playAll moves).1.Pairwise (· < ·) ∧
      (∀ p ∈ (log.playAll moves).1, log.counter < p ∧ p ≤ (log.playAll moves).2.counter) ∧
      log.events <+: (log.playAll moves).2.events ∧
      (∀ cause, w.refusal (log.playAll moves).2 = some cause →
        w.inTables (log.playAll moves).2 now =
          (.error (.error (.store cause)), (log.playAll moves).2)) ∧
      (w.refusal (log.playAll moves).2 = none → ∃ a log',
        w.inTables (log.playAll moves).2 now = (.ok a, log') ∧
          LogWrite.Done (log.playAll moves).2 now w a log') := by
  obtain ⟨hsorted, hrange, -, hkept⟩ := log.playAll_ascends moves
  exact ⟨hsorted, hrange, hkept, fun _ h => LogWrite.inTables_of_refusal h now,
    fun h => LogWrite.done_of_refusal h now⟩

/-- Position 2 is committed ahead of the counter. An append at position 1 is served, the next one is
refused and takes its reservation back, and what is reserved then is handed out for the first
time. -/
example :
    (playAll {} [.write (.commit 2 "e" []) default, .write (.append "e" []) default,
      .write (.append "e" []) default, .write .reserve default,
      .write (.append "e" []) default]).1 = [1, 2, 3] := by
  decide +kernel

end TableLog

end Tidemark
