import Mathlib.Logic.Function.Basic
import Tidemark.Proofs.Shard.Surroundings

/-!
# How failures are counted

The handle of a shard counts the failures since the last batch that went through. What a step of a
consumer does to the counts is said by what is noted of it (`Consumer.noted`): it reports a failure
of its shard, it completes a batch, or it leaves all counts as they are (`Consumer.counted_step`).
Commands leave them as they are, too (`Registry.counted_apply`).
-/

namespace Tidemark

variable {L π : Type}

/-! ## Counts -/

/-- How many failures of each shard are counted, for those that are registered. -/
def Registry.counted (r : Registry) (shard : String) : Option ℕ := (r.find? shard).map (·.attempts)

/-- How many failures of each shard are counted, for those that are registered. -/
abbrev Surroundings.counted (s : Surroundings L) : String → Option ℕ := s.supervisor.shards.counted

namespace Registry

variable (r : Registry) (i : String)

/-- The counts after the handle of a shard was changed. -/
theorem counted_modify_eq_update (f : ShardHandle → ShardHandle) :
    (r.modify i f).counted =
      Function.update r.counted i ((r.find? i).map fun h => (f h).attempts) := by
  funext j
  rw [counted, find?_modify]
  by_cases hj : j = i
  · subst hj
    rw [if_pos rfl, Function.update_self, Option.map_map]
    rfl
  · rw [if_neg hj, Function.update_of_ne hj, counted]

/-- Changing a handle but for its count keeps all counts. -/
theorem counted_modify {f : ShardHandle → ShardHandle} (hf : ∀ h, (f h).attempts = h.attempts) :
    (r.modify i f).counted = r.counted := by
  rw [counted_modify_eq_update]
  simp only [hf]
  exact Function.update_eq_self i r.counted

/-- A command keeps all counts. -/
theorem counted_apply {r r' : Registry} {now : Moment} {command : Command}
    (happly : r.apply now command = .ok r') : r'.counted = r.counted := by
  funext j
  rw [counted, counted]
  rcases find?_apply happly j with ⟨hnone, hnone'⟩ | ⟨old, new, hold, hnew, hobey⟩
  · rw [hnone, hnone']
  · rw [hold, hnew]
    rcases obey_cases hobey with ⟨rfl, -⟩ | ⟨-, -, due, rfl⟩ | ⟨-, rfl⟩ <;> rfl

end Registry

/-- The end of a call of a worker keeps all counts. -/
theorem Supervisor.counted_obeyed (command : Command) (now : Moment) (r : Registry) :
    (obeyed command now r).counted = r.counted := by
  rcases obeyed_cases command now r with heq | happly
  · rw [heq]
  · exact Registry.counted_apply happly

/-- Carrying a report on keeps all counts. -/
theorem Reporting.counted_step (r : Reporting) (s : Supervisor) (m : Metrics) (now : Moment) :
    (r.step s m now).2.1.shards.counted = s.shards.counted := by
  rw [Reporting.shards_step]
  split
  · exact Supervisor.counted_obeyed _ now s.shards
  · rfl

/-! ## Reports -/

/-- The continuation that a report leads to, if its shard is registered. -/
def Reporting.continuation? : Reporting → Option Continuation
  | .posting c _ | .done (.ok c) => some c
  | .done (.error _) => none

/-- The number of the attempt that is made when so many failures are counted. -/
def ShardHandle.attemptAfter (counted : ℕ) : ℕ := min (counted + 1) 0xFFFFFFFF

/-- How many failures are counted once a failure was resolved, if there were so many before. -/
def Policy.countOn (p : Policy) (e : Failure) (counted : ℕ) : ℕ :=
  if (p.determine e (ShardHandle.attemptAfter counted)).resolves then 0
  else (counted + 1) % 0x100000000

namespace Supervisor

variable (s : Supervisor) (m : Metrics) (shard : String) (e : Failure)

/-- A report is resolved by the policy, by the number of the attempt. -/
theorem continuation?_report :
    (s.report m shard e).1.continuation? =
      (s.shards.counted shard).map fun n =>
        s.policy.determine e (ShardHandle.attemptAfter n) := by
  unfold report resolve? Registry.counted
  cases s.shards.find? shard with
  | none => rfl
  | some h =>
    simp only [Option.map_some, ShardHandle.nextAttempt, ShardHandle.attemptAfter]
    split <;> rfl

/-- A report changes the handle of its shard, if it is registered. -/
theorem shards_report {h : ShardHandle} (hfind : s.shards.find? shard = some h) :
    (s.report m shard e).2.1.shards = s.shards.modify shard fun _ =>
      if (s.policy.determine e h.nextAttempt.1).resolves then h.nextAttempt.2.resetAttempts
      else h.nextAttempt.2 := by
  simp only [report, resolve?, hfind, Option.map_some]
  split <;> rfl

/-- A report leaves the policy. -/
theorem policy_report : (s.report m shard e).2.1.policy = s.policy := by
  unfold report resolve?
  cases s.shards.find? shard with
  | none => rfl
  | some h =>
    simp only [Option.map_some]
    split <;> rfl

/-- A report is counted for its shard, unless it is resolved by a continuation that counts the
failure as dealt with. -/
theorem counted_report :
    (s.report m shard e).2.1.shards.counted =
      Function.update s.shards.counted shard
        ((s.shards.counted shard).map (s.policy.countOn e)) := by
  cases hfind : s.shards.find? shard with
  | none =>
    have hnone : s.shards.counted shard = none := by rw [Registry.counted, hfind, Option.map_none]
    have hkept : (s.report m shard e).2.1 = s := by simp only [report, resolve?, hfind]; rfl
    rw [hkept, hnone, Option.map_none, ← hnone, Function.update_eq_self]
  | some h =>
    rw [s.shards_report m shard e hfind, Registry.counted_modify_eq_update]
    simp only [Registry.counted, hfind, Option.map_some, Policy.countOn, ShardHandle.attemptAfter,
      apply_ite ShardHandle.attempts]
    rfl

end Supervisor

/-! ## Parts of a step -/

namespace Surroundings

variable (s : Surroundings L) (i : String)

/-- Changing a handle but for its count keeps all counts. -/
theorem counted_modify {f : ShardHandle → ShardHandle} (hf : ∀ h, (f h).attempts = h.attempts) :
    (s.modify i f).counted = s.counted :=
  s.supervisor.shards.counted_modify i hf

/-- Setting a status keeps all counts. -/
theorem counted_setStatus (status : ShardStatus) : (s.setStatus i status).counted = s.counted :=
  s.counted_modify i (f := ({ · with status := status })) fun _ => rfl

end Surroundings

namespace Consumer

variable (c : Consumer) (s : Surroundings L)

/-- A consumer that ends keeps all counts. -/
theorem counted_finish : (c.finish s).2.counted = s.counted :=
  s.counted_setStatus c.identity .stopped

/-- A consumer that goes into the next round keeps all counts. -/
theorem counted_turn : (c.turn s).2.counted = s.counted := by
  unfold turn
  split_ifs
  · exact c.counted_finish s
  · dsimp only
    split
    · exact counted_finish _ s
    · exact s.counted_setStatus c.identity .paused
    · split <;> rfl

/-- A consumer that gives up a batch keeps all counts. -/
theorem counted_restart (saved : Position) (flow : Flow) :
    (c.restart s saved flow).2.counted = s.counted := by
  cases flow with
  | exit => exact counted_finish _ s
  | next => exact counted_turn _ s
  | refetch => exact counted_turn _ s

/-- A consumer that ends a batch resets the count of its shard. -/
theorem counted_commit (now : Moment) (b : Batch) (saved : Position) :
    (c.commit s now b saved).2.counted =
      Function.update s.counted c.identity ((s.counted c.identity).map fun _ => 0) := by
  have hreset : (s.modify c.identity (·.resetAttempts)).counted =
      Function.update s.counted c.identity ((s.counted c.identity).map fun _ => 0) := by
    refine (s.supervisor.shards.counted_modify_eq_update c.identity _).trans ?_
    simp only [Surroundings.counted, Registry.counted, Option.map_map]
    rfl
  obtain ⟨f, hf⟩ := c.commit_eq s now b saved
  rw [hf]
  dsimp only
  split_ifs
  · exact (counted_turn _ _).trans hreset
  · exact hreset

variable [Projection π] (p : π)

/-- A consumer that goes on after a failure keeps all counts. -/
theorem counted_goOn (now : Moment) (i : Interrupted) (flow : Flow) :
    (c.goOn p s now i flow).2.counted = s.counted := by
  cases i with
  | loading | fetching =>
    simp only [goOn]
    split_ifs
    · exact c.counted_finish s
    · exact c.counted_turn s
  | saving b cause =>
    simp only [goOn]
    split_ifs
    · rfl
    · exact c.counted_restart s _ flow
  | applying b saved =>
    simp only [goOn]
    split_ifs
    · split <;> rfl
    · exact c.counted_restart s _ flow
  | closing b => exact c.counted_restart s _ flow

/-- A consumer that acts on a continuation keeps all counts. -/
theorem counted_act (now : Moment) (i : Interrupted) (outcome : Except Error Continuation) :
    (c.act p s now i outcome).2.counted = s.counted := by
  have hpause {k : Continuation} {d : Duration} (hk : k = .pauseShard d ∨ k = .pauseAllShards d) :
      (c.act p s now i (.ok k)).2.counted = s.counted := by
    rcases c.act_pause p s now i hk with ⟨due, -, hpaused⟩ | ⟨-, hcrashed⟩
    · -- The handle that is put back is the one that was found, with another instruction.
      rw [hpaused, counted_goOn]
      refine (s.supervisor.shards.counted_modify_eq_update c.identity _).trans ?_
      refine (congrArg (Function.update s.counted c.identity) ?_).trans
        (Function.update_eq_self c.identity s.counted)
      rw [Surroundings.counted, Registry.counted, Surroundings.handle]
      cases s.supervisor.shards.find? c.identity <;> rfl
    · rw [hcrashed]
      rfl
  have hstop : (c.goOn p (s.modify c.identity (·.stop)) now i .exit).2.counted = s.counted :=
    (c.counted_goOn _ p now i .exit).trans (s.counted_modify c.identity fun _ => rfl)
  cases outcome with
  | error e => exact hstop
  | ok k =>
    cases k with
    | skipEvent | doNothing => exact c.counted_goOn s p now i .next
    | retryLater d =>
      simp only [act]
      split_ifs
      · exact c.counted_goOn s p now i .exit
      · rfl
    | pauseShard d => exact hpause (.inl rfl)
    | pauseAllShards d => exact hpause (.inr rfl)
    | stopShard | stopAllShards => exact hstop

/-- A consumer that calls the log keeps all counts if it does so once it is answered. -/
theorem counted_proceed {α : Type} (i : Interrupted) (category : Category) (now : Moment)
    (f : LogCall L α) {k : α → Surroundings L → Stepped L}
    (hk : ∀ a s', s'.supervisor = s.supervisor → (k a s').2.counted = s.counted) :
    (c.proceed i category (s.call now f) k).2.counted = s.counted := by
  cases h : s.call now f with
  | mk outcome s' =>
    have hsupervisor := Surroundings.supervisor_of_call h
    have hkept : s'.counted = s.counted := congrArg (·.shards.counted) hsupervisor
    cases outcome with
    | ok a => exact hk a s' hsupervisor
    | error fault => cases fault <;> exact hkept

end Consumer

/-! ## Steps -/

/-- What is noted of a step about the failures of a shard. -/
inductive Noted where
  | nothing
  /-- A failure is reported. -/
  | failed (e : Failure)
  /-- A batch is completed. -/
  | completed

/-- A failure is noted. -/
def Noted.isFailure : Noted → Bool
  | failed _ => true
  | _ => false

/-- How many failures of a shard are counted after a step of which something is noted. -/
def Noted.count (policy : Policy) : Noted → Option ℕ → Option ℕ
  | nothing, n => n
  | failed e, n => n.map (policy.countOn e)
  | completed, n => n.map fun _ => 0

/-- What is noted of the next step of a consumer about the failures of its shard. A batch is
completed once its progress is on record. -/
def Consumer.noted [EventLog L] (c : Consumer) (s : Surroundings L) (now : Moment) : Noted :=
  match c.stage with
  | .failing _ e => .failed e
  | .closing b =>
    if b.target ≤ b.committed ∨
        (s.call now (EventLog.persistMark (s.handle c.identity).name b.target)).1.isOk then
      .completed
    else .nothing
  | _ => .nothing

/-- A consumer that records the progress after a batch resets the count of its shard once the
progress is on record. -/
theorem Consumer.counted_closing [EventLog L] [Projection π] (c : Consumer) {b : Batch}
    (hstage : c.stage = .closing b) (p : π) (s : Surroundings L) (now : Moment) :
    (c.step p s now).2.2.counted =
      Function.update s.counted c.identity
        ((c.noted s now).count s.supervisor.policy (s.counted c.identity)) := by
  simp only [step, stepAside, noted, hstage]
  by_cases hshort : b.target ≤ b.committed
  · rw [if_pos hshort, if_pos (.inl hshort)]
    exact c.counted_commit s now b _
  · rw [if_neg hshort]
    cases hcall : s.call now (EventLog.persistMark (s.handle c.identity).name b.target) with
    | mk outcome s' =>
      have hkept : s'.counted = s.counted :=
        congrArg (·.shards.counted) (Surroundings.supervisor_of_call hcall)
      cases outcome with
      | error fault =>
        rw [if_neg (by simp [hshort, Except.isOk, Except.toBool])]
        refine Eq.trans ?_ (Function.update_eq_self c.identity s.counted).symm
        cases fault <;> exact hkept
      | ok updated =>
        rw [if_pos (.inr rfl)]
        refine (c.counted_commit _ now b _).trans ?_
        rw [s'.counted_modify c.identity (f := ({ · with position := b.target })) fun _ => rfl,
          hkept]
        rfl

/-- What a step of a consumer does to the counts is what is noted of it. -/
theorem Consumer.counted_step [EventLog L] [Projection π] (c : Consumer) (p : π)
    (s : Surroundings L) (now : Moment) :
    (c.step p s now).2.2.counted =
      Function.update s.counted c.identity
        ((c.noted s now).count s.supervisor.policy (s.counted c.identity)) := by
  obtain ⟨identity, stage, seenMark, seenControl, position⟩ := c
  let c : Consumer := ⟨identity, stage, seenMark, seenControl, position⟩
  -- Where nothing is noted, all counts stay.
  have hquiet {out : Surroundings L} (h : out.counted = s.counted) :
      out.counted = Function.update s.counted identity (s.counted identity) :=
    h.trans (Function.update_eq_self identity s.counted).symm
  cases stage with
  | opening =>
    simp only [step]
    rw [c.stepAside_opening rfl]
    exact hquiet ((counted_turn _ _).trans (Surroundings.counted_setStatus _ identity .running))
  | pausing elapsed due =>
    simp only [step, stepAside]
    split_ifs
    · exact hquiet (c.counted_finish s)
    · exact hquiet (c.counted_turn s)
    · refine hquiet ((c.counted_turn _).trans ?_)
      refine (Surroundings.counted_setStatus _ identity .running).trans
        (s.counted_modify identity fun h => ?_)
      unfold ShardHandle.resumeAfter
      split_ifs <;> rfl
    · exact hquiet rfl
  | loading =>
    refine hquiet (c.counted_proceed s .loading _ now _ fun a s' h => ?_)
    obtain ⟨saved, updated⟩ := a
    exact (s'.counted_modify identity (f := ({ · with position := saved })) fun _ => rfl).trans
      (congrArg (·.shards.counted) h)
  | idle => exact hquiet (c.counted_turn s)
  | fetching committed mark =>
    exact hquiet (c.counted_proceed s .fetching _ now _ fun a s' h =>
      congrArg (·.shards.counted) h)
  | applying b due =>
    simp only [step]
    split
    · exact hquiet rfl
    · simp only [applied]
      split
      · exact hquiet rfl
      · split_ifs <;> exact hquiet rfl
      · exact hquiet rfl
  | saving b cause =>
    refine hquiet (c.counted_proceed s (.saving b cause) _ now _ fun a s' h => ?_)
    exact (s'.counted_modify identity (f := ({ · with position := b.handled })) fun _ =>
      rfl).trans (congrArg (·.shards.counted) h)
  | closing b => exact c.counted_closing rfl p s now
  | failing i e => exact s.supervisor.counted_report s.commons.metrics identity e
  | reporting i r =>
    cases r with
    | done outcome => exact hquiet (c.counted_act s p now i outcome)
    | posting k present =>
      exact hquiet (Reporting.counted_step _ s.supervisor s.commons.metrics now)
  | backingOff i due => exact hquiet (c.counted_goOn s p now i _)
  | ended | crashed => exact hquiet rfl

end Tidemark
