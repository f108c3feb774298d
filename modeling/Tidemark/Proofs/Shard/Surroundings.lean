import Tidemark.Proofs.Log.Lawful
import Tidemark.Proofs.Shard.Supervisor
import Tidemark.Shard.Consumer

/-!
# What a consumer leaves alone

Most of what a consumer does to its surroundings concerns its handle, the measurements and the
announcements. `Keeps` says that what matters for the events stays: the log as shards see it, the
published mark, and the name under which the progress of the shard is recorded.
-/

namespace Tidemark

open LogView

namespace Surroundings

variable {L : Type}

/-- The name under which the progress of a shard is recorded. -/
def rowName (s : Surroundings L) (identity : String) : String := (s.handle identity).name.identity

/-- The published high water mark. -/
def mark (s : Surroundings L) : Position := s.commons.tracker.mark.value

/-- The progress on record of a shard. -/
def row [LogView L] (s : Surroundings L) (identity : String) : Position :=
  recorded s.commons.log (s.rowName identity)

/-- The events that can be fetched. -/
def events [LogView L] (s : Surroundings L) : List EventRecord := stored s.commons.log

/-- The surroundings of a consumer that has subscribed to the mark and set its status. -/
def begun (s : Surroundings L) (identity : String) : Surroundings L :=
  let tracker := (s.commons.tracker.subscribe (s.handle identity).name).2
  { s with commons := { s.commons with tracker := tracker } }.setStatus identity .running

/-- Changing a handle in a way that keeps its name keeps all names. -/
theorem name_handle_modify {s : Surroundings L} {i : String} {f : ShardHandle → ShardHandle}
    (hf : ∀ h, s.supervisor.shards.find? i = some h → (f h).name = h.name) (j : String) :
    ((s.modify i f).handle j).name = (s.handle j).name := by
  unfold modify Supervisor.modify handle
  rw [Registry.find?_modify]
  split_ifs with h
  · subst h
    cases hfind : s.supervisor.shards.find? j with
    | none => rfl
    | some old => exact hf old hfind
  · rfl

variable [LogView L]

/-- What matters for the events of a shard is the same in two surroundings. -/
structure Keeps (identity : String) (s s' : Surroundings L) : Prop where
  view : SameView s.commons.log s'.commons.log
  mark : s'.mark = s.mark
  name : s'.rowName identity = s.rowName identity

namespace Keeps

variable {identity : String} {s s' s'' : Surroundings L}

/-- What matters stays where nothing changes. -/
theorem refl (identity : String) (s : Surroundings L) : Keeps identity s s := ⟨.refl _, rfl, rfl⟩

/-- What matters stays if it stays twice. -/
theorem trans (h : Keeps identity s s') (h' : Keeps identity s' s'') : Keeps identity s s'' where
  view := ⟨h'.view.kept ∘ h.view.kept, h'.view.recorded.trans h.view.recorded,
    h'.view.stored.trans h.view.stored⟩
  mark := h'.mark.trans h.mark
  name := h'.name.trans h.name

/-- The progress of the shard stays. -/
theorem row (h : Keeps identity s s') : s'.row identity = s.row identity := by
  unfold Surroundings.row
  rw [h.view.recorded, h.name]

end Keeps

section Frame

variable (identity : String) (s : Surroundings L)

/-- Changing a handle in a way that keeps its name. -/
theorem keeps_modify {i : String} {f : ShardHandle → ShardHandle}
    (hf : ∀ h, s.supervisor.shards.find? i = some h → (f h).name = h.name) :
    Keeps identity s (s.modify i f) :=
  ⟨.refl _, rfl, congrArg ShardName.identity (name_handle_modify hf identity)⟩

/-- Taking a measurement. -/
theorem keeps_measure (f : Metrics → Metrics) : Keeps identity s (s.measure f) :=
  ⟨.refl _, rfl, rfl⟩

/-- Setting a status. -/
theorem keeps_setStatus (i : String) (status : ShardStatus) :
    Keeps identity s (s.setStatus i status) :=
  (keeps_modify (f := ({ · with status := status })) identity s fun _ _ => rfl).trans
    (keeps_measure identity _ _)

/-- Making an announcement. -/
theorem keeps_announce (i : String) (action : ShardAction) :
    Keeps identity s (s.announce i action) :=
  ⟨.refl _, rfl, rfl⟩

/-- Ending a subscription. -/
theorem keeps_leave : Keeps identity s s.leave := ⟨.refl _, rfl, rfl⟩

/-- Reporting a failure. -/
theorem keeps_report (i : String) (e : Failure) :
    Keeps identity s
      { s with supervisor := (s.supervisor.report s.commons.metrics i e).2.1,
               commons := { s.commons with
                 metrics := (s.supervisor.report s.commons.metrics i e).2.2 } } := by
  refine ⟨.refl _, rfl, ?_⟩
  unfold Supervisor.report Supervisor.resolve?
  cases hfind : s.supervisor.shards.find? i with
  | none => rfl
  | some h =>
    -- A report counts the attempts of the handle, or resets them, and keeps its name.
    let counted := h.nextAttempt.2
    have hname := name_handle_modify (s := s) (i := i) (f := fun _ =>
      if (s.supervisor.policy.determine e h.nextAttempt.1).resolves then counted.resetAttempts
      else counted) (fun h' hh' => ?_) identity
    · dsimp only [Option.map_some]
      split <;> exact congrArg ShardName.identity hname
    · obtain rfl : h = h' := Option.some.inj (hfind.symm.trans hh')
      split_ifs <;> rfl

/-- Carrying a report on, which may carry out commands. -/
theorem keeps_reporting (r : Reporting) (now : Moment) :
    Keeps identity s
      { s with supervisor := (r.step s.supervisor s.commons.metrics now).2.1,
               commons := { s.commons with
                 metrics := (r.step s.supervisor s.commons.metrics now).2.2 } } := by
  refine ⟨.refl _, rfl, congrArg ShardName.identity ?_⟩
  unfold handle
  rw [Reporting.shards_step]
  split
  · exact Supervisor.name_obeyed _ now s.supervisor.shards identity
  · rfl

/-- Subscribing to the mark and setting the status. -/
theorem keeps_begun : Keeps identity s (s.begun identity) :=
  (⟨.refl _, rfl, rfl⟩ : Keeps identity s { s with commons := { s.commons with
    tracker := (s.commons.tracker.subscribe (s.handle identity).name).2 } }).trans
    (keeps_setStatus identity _ identity .running)

end Frame

/-! ## Calls of the log -/

omit [LogView L] in
/-- A call of the log changes the log alone. -/
theorem call_eq {α : Type} {s s' : Surroundings L} {now : Moment} {f : LogCall L α}
    {outcome : Outcome α} (h : s.call now f = (outcome, s')) :
    ∃ log, f s.commons.log (s.commons.time now) = (outcome, log) ∧
      s' = { s with commons := { s.commons with log := log } } := by
  unfold call Commons.call at h
  obtain ⟨rfl, rfl⟩ := Prod.mk.inj h
  exact ⟨_, rfl, rfl⟩

omit [LogView L] in
/-- A call of the log that is answered has an answer. -/
theorem call_of_isOk {α : Type} {s : Surroundings L} {now : Moment} {f : LogCall L α}
    (h : (s.call now f).1.isOk) : ∃ a s', s.call now f = (.ok a, s') := by
  obtain ⟨a, ha⟩ := isOk_iff.mp h
  exact ⟨a, _, Prod.ext ha rfl⟩

omit [LogView L] in
/-- A call of the log changes no handle. -/
theorem supervisor_of_call {α : Type} {s s' : Surroundings L} {now : Moment} {f : LogCall L α}
    {outcome : Outcome α} (h : s.call now f = (outcome, s')) : s'.supervisor = s.supervisor := by
  obtain ⟨log, -, rfl⟩ := call_eq h
  rfl

/-- A call that changes nothing of the log that shards see keeps what matters. -/
theorem keeps_call {α : Type} {s s' : Surroundings L} {now : Moment} {f : LogCall L α}
    {outcome : Outcome α} (identity : String) (h : s.call now f = (outcome, s'))
    (hf : ∀ {log log' now}, f log now = (outcome, log') → SameView log log') :
    Keeps identity s s' := by
  obtain ⟨log, hlog, rfl⟩ := call_eq h
  exact ⟨hf hlog, rfl, rfl⟩

/-- What recording progress does to surroundings: the progress of one shard becomes `p`. -/
structure Records (shard : String) (p : Position) (s s' : Surroundings L) : Prop where
  kept : Kept s.commons.log → Kept s'.commons.log
  recorded : recorded s'.commons.log = Function.update (recorded s.commons.log) (s.rowName shard) p
  mark : s'.mark = s.mark
  name : s'.rowName shard = s.rowName shard
  events : s'.events = s.events

/-- Progress that was recorded under the name of a shard is the progress of the shard. -/
theorem records_call {L : Type} [EventLog L] [LawfulLog L] {s s' : Surroundings L} {now : Moment}
    {shard : String} {p : Position} {updated : Option Timestamp}
    (h : s.call now (EventLog.persistMark (s.handle shard).name p) = (.ok updated, s')) :
    Records shard p s s' := by
  obtain ⟨log, hlog, rfl⟩ := call_eq h
  obtain ⟨hkept, hrecorded, hstored⟩ := LawfulLog.persist_ok hlog
  exact ⟨hkept, hrecorded, rfl, rfl, hstored⟩

end Surroundings

/-! ## Beginnings -/

/-- A consumer that has taken note of the present mark and of its present instruction. -/
def Consumer.begun {L : Type} (c : Consumer) (s : Surroundings L) : Consumer :=
  { c with seenMark := s.commons.tracker.mark.version,
           seenControl := (s.handle c.identity).control.version }

/-- A consumer that begins goes into its first round. -/
theorem Consumer.stepAside_opening {L π : Type} [EventLog L] [Projection π] {c : Consumer}
    (h : c.stage = .opening) (p : π) (s : Surroundings L) (now : Moment) :
    c.stepAside p s now = (c.begun s).turn (s.begun c.identity) := by
  simp only [stepAside, h]
  rfl

/-! ## Ends of batches -/

/-- A consumer that has recorded the progress after a batch counts no failures any more and goes
into the next round, unless the distance of its progress to the mark cannot be represented: then it
crashes. -/
theorem Consumer.commit_eq {L : Type} (c : Consumer) (s : Surroundings L) (now : Moment)
    (b : Batch) (saved : Position) :
    ∃ f : Metrics → Metrics, c.commit s now b saved =
      let reset := (s.modify c.identity (·.resetAttempts)).measure f
      if (b.mark - saved).Fits then
        { c with position := some saved }.turn (reset.announce c.identity .updated)
      else c.crash reset := by
  let applied (m : Metrics) : Metrics :=
    m.recordEventsApplied c.identity b.applied ⟨now - b.begun⟩
  -- The gauges are set before it is known whether the distance can be represented.
  refine ⟨fun m => ((applied m).setShardProgress c.identity saved b.mark).2, ?_⟩
  unfold commit Commons.measure? Metrics.setShardProgress Position.lead Position.distance
  split_ifs <;> rfl

/-! ## Pauses -/

/-- A consumer that is to pause goes into the next round with the pause as its instruction, unless
the end of the pause cannot be represented. -/
theorem Consumer.act_pause {L π : Type} [Projection π] (c : Consumer) (p : π) (s : Surroundings L)
    (now : Moment) (i : Interrupted) {k : Continuation} {d : Duration}
    (hk : k = .pauseShard d ∨ k = .pauseAllShards d) :
    (∃ due, now.after d = .ok due ∧ c.act p s now i (.ok k) =
        c.goOn p (s.modify c.identity fun _ => { s.handle c.identity with
          control := (s.handle c.identity).control.put (.pause due) }) now i .refetch) ∨
      (∀ due, now.after d ≠ .ok due) ∧ c.act p s now i (.ok k) = c.crash s := by
  cases hafter : now.after d with
  | ok due =>
    refine .inl ⟨due, rfl, ?_⟩
    rcases hk with rfl | rfl <;>
      simp only [act, ShardHandle.pause, hafter, bind, Except.bind]
  | error cause =>
    refine .inr ⟨nofun, ?_⟩
    rcases hk with rfl | rfl <;>
      simp only [act, ShardHandle.pause, hafter, bind, Except.bind]

end Tidemark
