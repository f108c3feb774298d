import Tidemark.Policy.Continuation
import Tidemark.Shard.State
import Tidemark.Time.Moment
import Tidemark.Watched

/-!
# Shard handles

A handle is what a shard has in common with the rest of the daemon: the instruction that the shard
follows, the status it reports, the position it has recorded, and its failures in a row. Handles
are registered under the identities of their shards.
-/

namespace Tidemark

/-- An instruction to a shard. -/
inductive Control where
  | run
  /-- Do nothing before a moment. -/
  | pause (until_ : Moment)
  | stop
  deriving DecidableEq, Repr, Inhabited

/-- The handle of a shard. -/
structure ShardHandle where
  name : ShardName
  control : Watched Control := ⟨.run, 0⟩
  status : ShardStatus := .running
  /-- The position that the shard has recorded. -/
  position : Position := 0
  /-- Failures since the last batch that went through, counted in 32 bits. -/
  attempts : Nat := 0
  deriving Repr, Inhabited

namespace ShardHandle

/-- Tells the shard to pause for a while. -/
def pause (h : ShardHandle) (now : Moment) (delay : Duration) : Except Crash ShardHandle := do
  let until_ ← now.after delay
  .ok { h with control := h.control.put (.pause until_) }

/-- Tells the shard to stop. -/
def stop (h : ShardHandle) : ShardHandle := { h with control := h.control.put .stop }

/-- Ends a pause that has elapsed. A newer pause is kept, and so is a stop. -/
def resumeAfter (h : ShardHandle) (elapsed : Control) : ShardHandle :=
  if h.control.value = elapsed then { h with control := h.control.put .run } else h

/-- Counts a failure: the number of the attempt that failed, and the handle afterwards. -/
def nextAttempt (h : ShardHandle) : Nat × ShardHandle :=
  (min (h.attempts + 1) 0xFFFFFFFF, { h with attempts := (h.attempts + 1) % 0x100000000 })

/-- Forgets the failures. -/
def resetAttempts (h : ShardHandle) : ShardHandle := { h with attempts := 0 }

end ShardHandle

/-- The handles of all shards, by identity. -/
structure Registry where
  entries : List (String × ShardHandle) := []
  deriving Repr, Inhabited

namespace Registry

/-- The handle of an identity. -/
def find? (r : Registry) (identity : String) : Option ShardHandle := r.entries.lookup identity

/-- Changes the handle of an identity. -/
def modify (r : Registry) (identity : String) (f : ShardHandle → ShardHandle) : Registry :=
  ⟨r.entries.map fun (i, h) => if i = identity then (i, f h) else (i, h)⟩

/-- Registers a shard, in place of one of the same identity. -/
def register (r : Registry) (name : ShardName) : Registry :=
  ⟨r.entries.filter (·.1 ≠ name.identity) ++ [(name.identity, { name := name })]⟩

/-- The handles of shards. -/
def ofNames (names : List ShardName) : Registry := names.foldl register {}

/-- The handles in the order of their names. -/
def handles (r : Registry) : List ShardHandle :=
  (r.entries.map Prod.snd).mergeSort fun a b => a.name.le b.name

/-- Gives a command to the shard of a handle. A shard that has stopped is not paused. -/
def obey (now : Moment) (command : Command) (h : ShardHandle) : Except Crash ShardHandle :=
  match command with
  | .pauseAll delay => if h.status = .stopped then .ok h else h.pause now delay
  | .stopAll => .ok h.stop

/-- Gives a command to every shard. -/
def apply (r : Registry) (now : Moment) (command : Command) : Except Crash Registry := do
  let entries ← r.entries.mapM fun (i, h) => do .ok (i, ← obey now command h)
  .ok ⟨entries⟩

end Registry

end Tidemark
