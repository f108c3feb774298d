import Tidemark.Proofs.Shard.Surroundings

/-!
# Who changes which handle

What the steps of a consumer do to the handles of shards. A consumer changes no handle but its own
(`Spares`), and keeps its own instruction unless a continuation says otherwise (`Heeds`). It leaves
the commands that its reports bring about to the workers (`Queues`), so that only they give a
command to all shards.
-/

namespace Tidemark

variable {L π : Type}

namespace Surroundings

/-- The shard is registered, and its handle has a property. -/
def Reads (s : Surroundings L) (shard : String) (P : ShardHandle → Prop) : Prop :=
  ∃ h, s.supervisor.shards.find? shard = some h ∧ P h

/-- The handle that is read is the handle of the shard. -/
theorem Reads.handle {s : Surroundings L} {shard : String} {P : ShardHandle → Prop}
    (h : s.Reads shard P) : P (s.handle shard) := by
  obtain ⟨handle, hfind, hP⟩ := h
  simpa [Surroundings.handle, hfind] using hP

/-- What is read of a handle after it was changed. -/
theorem Reads.modify {s : Surroundings L} {shard : String} {P Q : ShardHandle → Prop}
    {f : ShardHandle → ShardHandle} (h : s.Reads shard P) (hf : ∀ h, P h → Q (f h)) :
    (s.modify shard f).Reads shard Q := by
  obtain ⟨handle, hfind, hP⟩ := h
  refine ⟨f handle, ?_, hf handle hP⟩
  simp [Surroundings.modify, Supervisor.modify, Registry.find?_modify, hfind]

/-- The instruction of a shard. -/
abbrev Instructed (s : Surroundings L) (shard : String) (v : Control) : Prop :=
  s.Reads shard fun h => h.control.value = v

/-- All handles but that of one shard are the same. -/
def Spares (shard : String) (s s' : Surroundings L) : Prop :=
  ∀ i, i ≠ shard → s'.supervisor.shards.find? i = s.supervisor.shards.find? i

/-- What is spared twice is spared. -/
theorem Spares.trans {shard : String} {s s' s'' : Surroundings L} (h : Spares shard s s')
    (h' : Spares shard s' s'') : Spares shard s s'' := fun i hi => (h' i hi).trans (h i hi)

/-- Where the supervisor is the same, everything is spared. -/
theorem spares_of_eq {s s' : Surroundings L} (shard : String) (h : s'.supervisor = s.supervisor) :
    Spares shard s s' := fun i _ => by rw [h]

/-- Changing a handle spares the others. -/
theorem spares_modify (s : Surroundings L) (shard : String) (f : ShardHandle → ShardHandle) :
    Spares shard s (s.modify shard f) := fun i hi => by
  simp [Surroundings.modify, Supervisor.modify, Registry.find?_modify, hi]

end Surroundings

/-! ## Reports -/

/-- A report leaves its command to the workers. -/
def Reporting.Queues : Reporting → Prop
  | .posting _ (.trying _) | .posting _ (.calling _ _ _) => False
  | _ => True

/-- A report begins by queueing its command. -/
theorem Supervisor.queues_report (s : Supervisor) (m : Metrics) (shard : String) (e : Failure) :
    (s.report m shard e).1.Queues := by
  unfold Supervisor.report
  split
  · trivial
  · dsimp only
    split <;> trivial

/-- A report changes only the handle of its shard. -/
theorem Supervisor.find?_report (s : Supervisor) (m : Metrics) (shard : String) (e : Failure)
    {i : String} (hi : i ≠ shard) : (s.report m shard e).2.1.shards.find? i = s.shards.find? i := by
  unfold Supervisor.report Supervisor.resolve?
  cases s.shards.find? shard with
  | none => rfl
  | some h =>
    dsimp only [Option.map_some]
    split <;> simp [Supervisor.modify, Registry.find?_modify, hi]

/-- A report leaves the instruction and the status of every shard as they are. -/
theorem Supervisor.find?_report_some (s : Supervisor) (m : Metrics) (shard : String) (e : Failure)
    {i : String} {h : ShardHandle} (hi : s.shards.find? i = some h) :
    ∃ h', (s.report m shard e).2.1.shards.find? i = some h' ∧ h'.control = h.control ∧
      h'.status = h.status := by
  by_cases hshard : i = shard
  · subst hshard
    unfold Supervisor.report Supervisor.resolve?
    simp only [hi, Option.map_some]
    split <;> simp only [Supervisor.modify, Registry.find?_modify, hi, if_true, Option.map_some] <;>
      exact ⟨_, rfl, by split_ifs <;> rfl, by split_ifs <;> rfl⟩
  · exact ⟨h, (s.find?_report m shard e hshard).trans hi, rfl, rfl⟩

namespace Reporting

/-- A report that leaves its command to the workers changes no handle. -/
theorem Queues.shards_step {r : Reporting} (h : r.Queues) (s : Supervisor) (m : Metrics)
    (now : Moment) : (r.step s m now).2.1.shards = s.shards := by
  rw [Reporting.shards_step]
  split
  · exact h.elim
  · rfl

/-- A report goes on leaving its command to the workers. -/
theorem Queues.step {r : Reporting} (h : r.Queues) (s : Supervisor) (m : Metrics) (now : Moment) :
    (r.step s m now).1.Queues := by
  cases r with
  | done outcome => trivial
  | posting k p =>
    cases p with
    | trying item => exact h.elim
    | calling item call due => exact h.elim
    | sending item =>
      simp only [Reporting.step, Retry.Posting.step, Retry.Posting.send]
      split_ifs <;> trivial
    | waiting item ticket =>
      simp only [Reporting.step, Retry.Posting.step]
      split_ifs <;> trivial
    | done outcome => trivial

end Reporting

/-! ## Consumers keep to their handles -/

/-- A consumer sits out no stop, and leaves its commands to the workers. -/
def Consumer.Tidy (c : Consumer) : Prop :=
  match c.stage with
  | .pausing elapsed _ => elapsed ≠ .stop
  | .reporting _ r => r.Queues
  | _ => True

/-- A part of a step leads to a tidy consumer of the same shard and spares all other handles. -/
structure Steers (shard : String) (s : Surroundings L) (out : Consumer.Stepped L) : Prop where
  identity : out.1.identity = shard
  tidy : out.1.Tidy
  spares : s.Spares shard out.2

/-- What was spared before a part of a step that spares is spared. -/
theorem Steers.after {shard : String} {s s' : Surroundings L} {out : Consumer.Stepped L}
    (h : Steers shard s' out) (hs : s.Spares shard s') : Steers shard s out :=
  ⟨h.identity, h.tidy, hs.trans h.spares⟩

/-- A part of a step keeps the instruction of its shard. -/
structure Heeds (shard : String) (s : Surroundings L) (out : Consumer.Stepped L) : Prop
    extends Steers shard s out where
  instructed : ∀ v, s.Instructed shard v → out.2.Instructed shard v

/-- An instruction that was kept before is kept. -/
theorem Heeds.after {shard : String} {s s' : Surroundings L} {out : Consumer.Stepped L}
    (h : Heeds shard s' out) (hs : s.Spares shard s')
    (hi : ∀ v, s.Instructed shard v → s'.Instructed shard v) : Heeds shard s out :=
  ⟨h.toSteers.after hs, fun v hv => h.instructed v (hi v hv)⟩

namespace Consumer

/-- A consumer that is over takes no step. -/
theorem wait_ne_ready_of_isOver {c : Consumer} {s : Surroundings L} (h : c.isOver = true)
    (now : Moment) : c.wait s now ≠ .ready := by
  unfold Consumer.isOver at h
  split at h
  · next hstage => simp [wait, hstage]
  · next hstage => simp [wait, hstage]
  · cases h

variable (c : Consumer) (s : Surroundings L)

/-- A consumer that ends keeps to its handle. -/
theorem finish_heeds : Heeds c.identity s (c.finish s) where
  identity := rfl
  tidy := trivial
  spares := s.spares_modify _ _
  instructed _ hv := hv.modify fun _ hP => hP

/-- A consumer that weighs its position keeps to its handle. -/
theorem weigh_heeds (p : Position) : Heeds c.identity s (c.weigh s p) := by
  refine ⟨⟨rfl, ?_, fun _ _ => rfl⟩, fun v hv => hv⟩
  unfold weigh Tidy
  dsimp only [at_]
  split_ifs <;> trivial

/-- A consumer that goes into the next round keeps to its handle. -/
theorem turn_heeds : Heeds c.identity s (c.turn s) := by
  let seen : Consumer := { c with seenControl := (s.handle c.identity).control.version }
  unfold turn
  split_ifs
  · exact c.finish_heeds s
  · dsimp only
    split
    · exact seen.finish_heeds s
    · exact ⟨⟨rfl, by simp [Tidy, at_], s.spares_modify _ _⟩,
        fun v hv => hv.modify fun _ hP => hP⟩
    · split
      · exact ⟨⟨rfl, trivial, fun _ _ => rfl⟩, fun v hv => hv⟩
      · exact seen.weigh_heeds s _

/-- A consumer that gives up a batch keeps to its handle. -/
theorem restart_heeds (saved : Position) (flow : Flow) :
    Heeds c.identity s (c.restart s saved flow) := by
  cases flow with
  | exit => exact finish_heeds { c with position := some saved } s
  | next => exact turn_heeds { c with position := some saved } s
  | refetch => exact turn_heeds { c with position := some saved } s

variable [Projection π] (p : π)

/-- A consumer that turns to the events of a batch stays tidy. -/
theorem advance_heeds (b : Batch) (now : Moment) : Heeds c.identity s (c.advance p b now, s) := by
  unfold advance
  split <;> exact ⟨⟨rfl, trivial, fun _ _ => rfl⟩, fun v hv => hv⟩

/-- A consumer that goes on after a failure keeps to its handle. -/
theorem goOn_heeds (now : Moment) (i : Interrupted) (flow : Flow) :
    Heeds c.identity s (c.goOn p s now i flow) := by
  cases i with
  | loading =>
    simp only [goOn]
    split_ifs
    · exact c.finish_heeds s
    · exact c.turn_heeds s
  | fetching =>
    simp only [goOn]
    split_ifs
    · exact c.finish_heeds s
    · exact c.turn_heeds s
  | saving b cause =>
    simp only [goOn]
    split_ifs
    · exact ⟨⟨rfl, trivial, fun _ _ => rfl⟩, fun v hv => hv⟩
    · exact c.restart_heeds s _ flow
  | applying b saved =>
    simp only [goOn]
    split_ifs
    · split
      · exact c.advance_heeds s p b now
      · exact (c.advance_heeds _ p _ now).after (fun _ _ => rfl) fun _ hv => hv
    · exact c.restart_heeds s _ flow
  | closing b => exact c.restart_heeds s _ flow

/-- A consumer that acts on a continuation spares the other handles. -/
theorem act_steers (now : Moment) (i : Interrupted) (outcome : Except Error Continuation) :
    Steers c.identity s (c.act p s now i outcome) := by
  -- A pause and a stop change the instruction, but only that of the shard.
  have hpause {k : Continuation} {d : Duration} (hk : k = .pauseShard d ∨ k = .pauseAllShards d) :
      Steers c.identity s (c.act p s now i (.ok k)) := by
    rcases c.act_pause p s now i hk with ⟨due, -, hpaused⟩ | ⟨-, hcrashed⟩
    · rw [hpaused]
      exact (c.goOn_heeds _ p now i _).toSteers.after (s.spares_modify _ _)
    · rw [hcrashed]
      exact ⟨rfl, trivial, fun _ _ => rfl⟩
  have hstop : Steers c.identity s (c.goOn p (s.modify c.identity (·.stop)) now i .exit) :=
    (c.goOn_heeds _ p now i _).toSteers.after (s.spares_modify _ _)
  cases outcome with
  | error e => exact hstop
  | ok k =>
    cases k with
    | skipEvent => exact (c.goOn_heeds s p now i _).toSteers
    | doNothing => exact (c.goOn_heeds s p now i _).toSteers
    | retryLater d =>
      simp only [act]
      split_ifs
      · exact (c.goOn_heeds s p now i _).toSteers
      · exact ⟨rfl, trivial, fun _ _ => rfl⟩
    | pauseShard d => exact hpause (.inl rfl)
    | pauseAllShards d => exact hpause (.inr rfl)
    | stopShard => exact hstop
    | stopAllShards => exact hstop

/-- A consumer that ends a batch keeps to its handle. -/
theorem commit_steers (now : Moment) (b : Batch) (saved : Position) :
    Steers c.identity s (c.commit s now b saved) := by
  unfold commit
  dsimp only
  split
  · exact ⟨rfl, trivial, s.spares_modify c.identity (·.resetAttempts)⟩
  · rename_i h
    obtain ⟨-, rfl⟩ := Prod.mk.inj h
    exact (turn_heeds { c with position := some saved } _).toSteers.after
      (s.spares_modify c.identity (·.resetAttempts))

variable [EventLog L]

omit [Projection π] [EventLog L] in
/-- A consumer that calls the log keeps to its handle if it does so once it is answered. -/
theorem proceed_steers {α : Type} (i : Interrupted) (category : Category) (now : Moment)
    (f : LogCall L α) {k : α → Surroundings L → Stepped L}
    (hk : ∀ a s', s'.supervisor = s.supervisor → Steers c.identity s (k a s')) :
    Steers c.identity s (c.proceed i category (s.call now f) k) := by
  cases h : s.call now f with
  | mk outcome s' =>
    have hspares : s.Spares c.identity s' := s.spares_of_eq _ (Surroundings.supervisor_of_call h)
    cases outcome with
    | ok a => exact hk a s' (Surroundings.supervisor_of_call h)
    | error fault =>
      cases fault with
      | error e => exact ⟨rfl, trivial, hspares⟩
      | crash cause => exact ⟨rfl, trivial, hspares⟩

/-- A consumer that is over stays as it is. -/
theorem step_of_isOver (now : Moment) (hover : c.isOver = true) : (c.step p s now).1 = c := by
  obtain ⟨identity, stage, seenMark, seenControl, position⟩ := c
  cases stage with
  | ended => rfl
  | crashed => rfl
  | _ => cases hover

/-- A step of a tidy consumer leads to a tidy consumer and spares all other handles. -/
theorem step_steers (hc : c.Tidy) (now : Moment) :
    Steers c.identity s ((c.step p s now).1, (c.step p s now).2.2) := by
  obtain ⟨identity, stage, seenMark, seenControl, position⟩ := c
  let c : Consumer := ⟨identity, stage, seenMark, seenControl, position⟩
  -- After a call of the log, changing the handle of the shard spares the other handles.
  have hcalled {s' : Surroundings L} (h : s'.supervisor = s.supervisor)
      (f : ShardHandle → ShardHandle) : s.Spares identity (s'.modify identity f) :=
    (s.spares_of_eq identity h).trans (s'.spares_modify identity f)
  cases stage with
  | opening =>
    simp only [step]
    rw [c.stepAside_opening rfl]
    exact ((c.begun s).turn_heeds (s.begun identity)).toSteers.after (s.spares_modify identity _)
  | pausing elapsed due =>
    simp only [step, stepAside]
    split_ifs
    · exact (c.finish_heeds s).toSteers
    · exact (c.turn_heeds s).toSteers
    · exact (c.turn_heeds _).toSteers.after
        ((s.spares_modify identity (·.resumeAfter elapsed)).trans
          (Surroundings.spares_modify _ identity _))
    · exact ⟨rfl, hc, fun _ _ => rfl⟩
  | loading =>
    refine c.proceed_steers s .loading _ now _ fun a s' h => ?_
    obtain ⟨saved, updated⟩ := a
    exact (weigh_heeds { c with position := some saved } _ saved).toSteers.after
      (hcalled h ({ · with position := saved }))
  | idle => exact (c.turn_heeds s).toSteers
  | fetching committed mark =>
    exact c.proceed_steers s .fetching _ now _ fun a s' h =>
      (c.advance_heeds s' p _ now).toSteers.after (s.spares_of_eq identity h)
  | applying b due =>
    simp only [step]
    split
    · exact ⟨rfl, trivial, fun _ _ => rfl⟩
    · simp only [applied]
      split
      · exact (c.advance_heeds s _ _ now).toSteers
      · split_ifs <;> exact ⟨rfl, trivial, fun _ _ => rfl⟩
      · exact ⟨rfl, trivial, fun _ _ => rfl⟩
  | saving b cause =>
    exact c.proceed_steers s (.saving b cause) _ now _ fun a s' h => ⟨rfl, trivial, hcalled h _⟩
  | closing b =>
    simp only [step, stepAside]
    split_ifs
    · exact c.commit_steers s now b _
    · exact c.proceed_steers s (.closing b) _ now _ fun a s' h =>
        (c.commit_steers _ now b _).after (hcalled h ({ · with position := b.target }))
  | failing i e =>
    exact ⟨rfl, Supervisor.queues_report _ _ _ _, fun j hj => s.supervisor.find?_report _ _ e hj⟩
  | reporting i r =>
    cases r with
    | done outcome => exact c.act_steers s p now i outcome
    | posting k present =>
      exact ⟨rfl, hc.step _ _ _, fun j _ => congrArg (Registry.find? · j) (hc.shards_step _ _ _)⟩
  | backingOff i due => exact (c.goOn_heeds s p now i _).toSteers
  | ended => exact ⟨rfl, trivial, fun _ _ => rfl⟩
  | crashed => exact ⟨rfl, trivial, fun _ _ => rfl⟩

end Consumer

end Tidemark
