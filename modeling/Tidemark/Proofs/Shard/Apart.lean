import Mathlib.Tactic.SplitIfs
import Tidemark.Proofs.Shard.Surroundings

/-!
# What a supervisor has apart from its handles

Apart from the handles a supervisor has its policy and the block that carries commands. A consumer
changes its own handle in many ways, but of the rest only the block, and only while it carries a
report on (`Consumer.step_reports`).
-/

namespace Tidemark

variable {L π : Type}

/-- What a supervisor has apart from the handles. -/
def Supervisor.apart (s : Supervisor) : Policy × CommandBlock := (s.policy, s.commands)

/-- What the supervisor has apart from the handles. -/
abbrev Surroundings.apart (s : Surroundings L) : Policy × CommandBlock := s.supervisor.apart

/-- A report that begins changes handles only. -/
theorem Supervisor.apart_report (s : Supervisor) (m : Metrics) (shard : String) (e : Failure) :
    (s.report m shard e).2.1.apart = s.apart := by
  unfold report resolve?
  cases s.shards.find? shard with
  | none => rfl
  | some h =>
    simp only [Option.map_some]
    split <;> rfl

/-- A report that is carried on leaves the policy. -/
@[simp]
theorem Reporting.policy_step (r : Reporting) (s : Supervisor) (m : Metrics) (now : Moment) :
    (r.step s m now).2.1.policy = s.policy := by
  unfold step
  split <;> rfl

/-- A step of a worker leaves the policy. -/
@[simp]
theorem Supervisor.policy_stepWorker (s : Supervisor) (m : Metrics) (k : ℕ) (now : Moment) :
    (s.stepWorker m k now).1.policy = s.policy := rfl

namespace Consumer

/-- The report that a consumer carries on. -/
def report? (c : Consumer) : Option Reporting :=
  match c.stage with
  | .reporting _ r => some r
  | _ => none

/-- A part of a step reports nothing, and changes nothing of the supervisor but handles. -/
structure KeepsApart (s : Surroundings L) (out : Stepped L) : Prop where
  apart : out.2.apart = s.apart
  report : out.1.report? = none

/-- A part of a step that comes after a change of handles. -/
theorem KeepsApart.after {s s' : Surroundings L} {out : Stepped L} (h : KeepsApart s' out)
    (hs : s'.apart = s.apart) : KeepsApart s out :=
  ⟨h.apart.trans hs, h.report⟩

variable (c : Consumer) (s : Surroundings L)

/-- A consumer that ends changes nothing but handles. -/
theorem finish_apart : KeepsApart s (c.finish s) := ⟨rfl, rfl⟩

/-- A consumer that compares its progress with the mark changes nothing. -/
theorem weigh_apart (committed : Position) : KeepsApart s (c.weigh s committed) := by
  refine ⟨rfl, ?_⟩
  simp only [weigh]
  split_ifs <;> rfl

/-- A consumer that goes into the next round changes nothing but handles. -/
theorem turn_apart : KeepsApart s (c.turn s) := by
  unfold turn
  split_ifs
  · exact c.finish_apart s
  · dsimp only
    split
    · exact finish_apart _ s
    · exact ⟨rfl, rfl⟩
    · split
      · exact ⟨rfl, rfl⟩
      · exact weigh_apart _ s _

/-- A consumer that gives up a batch changes nothing but handles. -/
theorem restart_apart (saved : Position) (flow : Flow) : KeepsApart s (c.restart s saved flow) := by
  cases flow with
  | exit => exact finish_apart _ s
  | next => exact turn_apart _ s
  | refetch => exact turn_apart _ s

/-- A consumer that ends a batch changes nothing but handles. -/
theorem commit_apart (now : Moment) (b : Batch) (saved : Position) :
    KeepsApart s (c.commit s now b saved) := by
  obtain ⟨f, hf⟩ := c.commit_eq s now b saved
  rw [hf]
  dsimp only
  split_ifs
  · exact (turn_apart _ _).after rfl
  · exact ⟨rfl, rfl⟩

/-- A consumer that calls the log changes nothing but handles if it does so once it is answered. -/
theorem proceed_apart {α : Type} (i : Interrupted) (category : Category) (now : Moment)
    (f : LogCall L α) {k : α → Surroundings L → Stepped L} (hk : ∀ a s', KeepsApart s' (k a s')) :
    KeepsApart s (c.proceed i category (s.call now f) k) := by
  cases h : s.call now f with
  | mk outcome s' =>
    have hkept : s'.apart = s.apart := congrArg Supervisor.apart (s.supervisor_of_call h)
    cases outcome with
    | ok a => exact (hk a s').after hkept
    | error fault => cases fault <;> exact ⟨hkept, rfl⟩

variable [Projection π] (p : π)

/-- A consumer that turns to the next event of a batch reports nothing. -/
theorem report?_advance (b : Batch) (now : Moment) : (c.advance p b now).report? = none := by
  unfold advance
  split <;> rfl

/-- A consumer that goes on after a failure changes nothing but handles. -/
theorem goOn_apart (now : Moment) (i : Interrupted) (flow : Flow) :
    KeepsApart s (c.goOn p s now i flow) := by
  cases i with
  | loading | fetching =>
    simp only [goOn]
    split_ifs
    · exact c.finish_apart s
    · exact c.turn_apart s
  | saving b cause =>
    simp only [goOn]
    split_ifs
    · exact ⟨rfl, rfl⟩
    · exact c.restart_apart s _ flow
  | applying b saved =>
    simp only [goOn]
    split_ifs
    · split
      · exact ⟨rfl, c.report?_advance p _ now⟩
      · exact ⟨rfl, c.report?_advance p _ now⟩
    · exact c.restart_apart s _ flow
  | closing b => exact c.restart_apart s _ flow

/-- A consumer that acts on a continuation changes nothing but handles. -/
theorem act_apart (now : Moment) (i : Interrupted) (outcome : Except Error Continuation) :
    KeepsApart s (c.act p s now i outcome) := by
  have hpause {k : Continuation} {d : Duration} (hk : k = .pauseShard d ∨ k = .pauseAllShards d) :
      KeepsApart s (c.act p s now i (.ok k)) := by
    rcases c.act_pause p s now i hk with ⟨due, -, hpaused⟩ | ⟨-, hcrashed⟩
    · rw [hpaused]
      exact (c.goOn_apart _ p now i _).after rfl
    · rw [hcrashed]
      exact ⟨rfl, rfl⟩
  have hstop : KeepsApart s (c.goOn p (s.modify c.identity (·.stop)) now i .exit) :=
    (c.goOn_apart _ p now i .exit).after rfl
  cases outcome with
  | error e => exact hstop
  | ok k =>
    cases k with
    | skipEvent | doNothing => exact c.goOn_apart s p now i .next
    | retryLater d =>
      simp only [act]
      split_ifs
      · exact c.goOn_apart s p now i .exit
      · exact ⟨rfl, rfl⟩
    | pauseShard d => exact hpause (.inl rfl)
    | pauseAllShards d => exact hpause (.inr rfl)
    | stopShard | stopAllShards => exact hstop

/-- What a step of a consumer means for its report and for what the supervisor has apart from the
handles. -/
inductive Reports (now : Moment) : Consumer → Policy × CommandBlock → Prop where
  /-- Nothing is reported. -/
  | nothing {c' : Consumer} (hc : ∀ k post, c.report? ≠ some (.posting k post))
    (h : c'.report? = none) : Reports now c' s.apart
  /-- A failure is reported. -/
  | begins {c' : Consumer} {i : Interrupted} {e : Failure} (hc : c.stage = .failing i e)
    (h : c'.report? = some (s.supervisor.report s.commons.metrics c.identity e).1) :
    Reports now c' s.apart
  /-- A report is carried on. -/
  | carriesOn {c' : Consumer} {r : Reporting} (hc : c.report? = some r)
    (h : c'.report? = some (r.step s.supervisor s.commons.metrics now).1) :
    Reports now c' (r.step s.supervisor s.commons.metrics now).2.1.apart

/-- A step of a consumer changes handles, and the block of commands where it carries a report on. -/
theorem step_reports [EventLog L] (now : Moment) :
    c.Reports s now (c.step p s now).1 (c.step p s now).2.2.apart := by
  obtain ⟨identity, stage, seenMark, seenControl, position⟩ := c
  let c : Consumer := ⟨identity, stage, seenMark, seenControl, position⟩
  have hnone (h : c.report? = none) (k : Continuation) (post : Retry.Posting Command Command) :
      c.report? ≠ some (.posting k post) := fun heq => by cases h.symm.trans heq
  have hnothing {out : Stepped L} (hc : ∀ k post, c.report? ≠ some (.posting k post))
      (h : KeepsApart s out) : c.Reports s now out.1 out.2.apart :=
    h.apart ▸ .nothing hc h.report
  cases stage with
  | opening =>
    simp only [step]
    rw [c.stepAside_opening rfl]
    exact hnothing (hnone rfl) ((turn_apart _ _).after rfl)
  | pausing elapsed due =>
    simp only [step, stepAside]
    split_ifs
    · exact hnothing (hnone rfl) (c.finish_apart s)
    · exact hnothing (hnone rfl) (c.turn_apart s)
    · exact hnothing (hnone rfl) ((c.turn_apart _).after rfl)
    · exact .nothing (hnone rfl) rfl
  | loading =>
    exact hnothing (hnone rfl) (c.proceed_apart s .loading _ now _ fun a s' =>
      (weigh_apart _ _ a.1).after rfl)
  | idle => exact hnothing (hnone rfl) (c.turn_apart s)
  | fetching committed mark =>
    exact hnothing (hnone rfl) (c.proceed_apart s .fetching _ now _ fun _ _ =>
      ⟨rfl, c.report?_advance p _ now⟩)
  | applying b due =>
    simp only [step]
    split
    · exact .nothing (hnone rfl) rfl
    · simp only [applied]
      split
      · exact .nothing (hnone rfl) (c.report?_advance _ _ now)
      · split_ifs <;> exact .nothing (hnone rfl) rfl
      · exact .nothing (hnone rfl) rfl
  | saving b cause =>
    exact hnothing (hnone rfl) (c.proceed_apart s (.saving b cause) _ now _ fun _ _ => ⟨rfl, rfl⟩)
  | closing b =>
    simp only [step, stepAside]
    split_ifs
    · exact hnothing (hnone rfl) (c.commit_apart s now b _)
    · exact hnothing (hnone rfl) (c.proceed_apart s (.closing b) _ now _ fun _ s' =>
        (c.commit_apart _ now b _).after rfl)
  | failing i e =>
    have hsame : (c.step p s now).2.2.apart = s.apart :=
      s.supervisor.apart_report s.commons.metrics identity e
    show c.Reports s now (c.step p s now).1 (c.step p s now).2.2.apart
    rw [hsame]
    exact .begins rfl rfl
  | reporting i r =>
    cases r with
    | done outcome => exact hnothing (fun _ _ heq => by cases heq) (c.act_apart s p now i outcome)
    | posting k post => exact .carriesOn rfl rfl
  | backingOff i due => exact hnothing (hnone rfl) (c.goOn_apart s p now i _)
  | ended | crashed => exact .nothing (hnone rfl) rfl

/-- A step of a consumer leaves the policy. -/
theorem policy_step [EventLog L] (now : Moment) :
    (c.step p s now).2.2.supervisor.policy = s.supervisor.policy := by
  have hreports := c.step_reports s p now
  generalize hapart : (c.step p s now).2.2.apart = apart at hreports
  refine (congrArg Prod.fst hapart).trans ?_
  cases hreports with
  | nothing | begins => rfl
  | carriesOn => exact Reporting.policy_step _ _ _ now

end Consumer

end Tidemark
