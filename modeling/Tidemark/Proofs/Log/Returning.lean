import Tidemark.Log.Table
import Tidemark.Proofs.Log.Lawful
import Tidemark.Rehearsal.Log

/-!
# Calls that return

A call of a log returns if it ends in an answer or in an error, and does not crash its caller
(`LogCall.Returns`). In all logs of this library those calls return that shards make
(`ReturningLog`).
-/

namespace Tidemark

/-- A call ends in an answer or in an error. -/
def LogCall.Returns {L α : Type} (f : LogCall L α) : Prop :=
  ∀ (log : L) (now : Timestamp) (cause : Crash), (f log now).1 ≠ .error (.crash cause)

/-- A log whose calls for shards return. -/
class ReturningLog (L : Type) [EventLog L] : Prop where
  /-- Loading progress returns. -/
  load (shard : ShardName) : (EventLog.lastPersistedMark shard : LogCall L _).Returns
  /-- Fetching events returns. -/
  fetch (after upTo : Position) (limit : Nat) :
    (EventLog.fetchEvents after upTo limit : LogCall L _).Returns
  /-- Recording progress returns. -/
  persist (shard : ShardName) (p : Position) :
    (EventLog.persistMark shard p : LogCall L _).Returns

variable {α : Type}

/-- A call of a log in memory that changes nothing returns if it has an answer or an error. -/
theorem MemoryLog.returns_ask {operation : String} {answer : MemoryLog → Timestamp → Outcome α}
    (h : ∀ log now cause, answer log now ≠ .error (.crash cause)) :
    (ask operation answer).Returns := fun log now cause => by
  unfold ask call
  dsimp only
  split_ifs
  · exact h _ now cause
  · exact nofun

/-- Recording progress in a log in memory returns. -/
theorem MemoryLog.returns_persist (shard : ShardName) (p : Position) :
    (persist shard p).Returns := fun log now cause => by
  unfold persist call
  dsimp only
  split_ifs <;> exact nofun

instance : ReturningLog MemoryLog where
  load _ := MemoryLog.returns_ask nofun
  fetch _ _ _ := MemoryLog.returns_ask nofun
  persist := MemoryLog.returns_persist

/-- A call of a log in tables returns if an open log serves it with an answer or an error. -/
theorem TableLog.returns_call {serve : LogCall TableLog α} (h : serve.Returns) :
    (call serve).Returns := fun log now cause => by
  unfold call
  split_ifs
  · exact nofun
  · exact h log now cause

instance : ReturningLog TableLog where
  load _ := TableLog.returns_call nofun
  fetch _ _ _ := TableLog.returns_call nofun
  persist _ _ := TableLog.returns_call nofun

namespace Rehearsal.FaultyLog

/-- A call that is passed on returns if the log in memory returns. -/
theorem returns_within {f : LogCall MemoryLog α} (h : f.Returns) : (within f).Returns :=
  fun log now cause => h log.inner now cause

/-- A call whose outcome is noted returns if it does so without that. -/
theorem returns_noting {note : Timestamp → Outcome α → FaultyLog → FaultyLog}
    {f : LogCall FaultyLog α} (h : f.Returns) : (noting note f).Returns := fun log now cause => by
  have hf := h log now
  unfold noting
  split
  · next heq => exact absurd (congrArg Prod.fst heq) (hf _)
  · next outcome log' _ heq => exact fun hcrash => hf cause (by rw [heq]; exact hcrash)

instance : ReturningLog FaultyLog where
  load shard := returns_noting fun log now cause => by
    split_ifs
    · exact returns_within (ReturningLog.load shard) log now cause
    · exact nofun
  fetch after upTo limit := returns_noting fun log now cause => by
    split_ifs
    · exact returns_within (ReturningLog.fetch after upTo limit) log now cause
    · exact nofun
  persist shard p := by
    show (persist shard p).Returns
    unfold persist
    dsimp only
    split_ifs <;> exact returns_noting (returns_within (ReturningLog.persist shard p))

end Rehearsal.FaultyLog

end Tidemark
