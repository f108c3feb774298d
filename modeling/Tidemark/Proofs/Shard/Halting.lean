import Mathlib.Data.Prod.Lex
import Tidemark.Proofs.Shard.Steering

/-!
# Consumers that are told to stop

A consumer whose handle says to stop follows the iteration through that it is in and ends at the top
of the next one. Every step that is not idle waiting ends it with the status that it has stopped,
crashes it, or lowers its rank (`step_halts`), as long as it does not pause instead (`Overrides`),
which leaves it with another instruction (`instructed_of_overrides`).
-/

namespace Tidemark

variable {L π : Type}

/-- A shard is told to stop and has a status. -/
abbrev Surroundings.Stopping (s : Surroundings L) (shard : String) (status : ShardStatus) : Prop :=
  s.Reads shard fun h => h.control.value = .stop ∧ h.status = status

/-! ## Ranks -/

namespace Reporting

/-- How far a report is from its end. -/
def rank : Reporting → ℕ
  | .posting _ (.trying _) => 7
  | .posting _ (.calling _ _ _) => 6
  | .posting _ (.sending _) => 5
  | .posting _ (.waiting _ _) => 4
  | .posting _ (.done _) => 3
  | .done _ => 2

/-- A report that begins is not at the rank of a failure any more. -/
theorem rank_report (s : Supervisor) (m : Metrics) (shard : String) (e : Failure) :
    (s.report m shard e).1.rank < 8 := by
  unfold Supervisor.report
  split
  · simp [rank]
  · dsimp only
    split <;> simp [rank, Retry.Posting.post]

/-- A report that is not over comes closer to its end, or waits for a place in the queue. -/
theorem Queues.rank_step {r : Reporting} (h : r.Queues) (hposting : ∀ outcome, r ≠ .done outcome)
    (s : Supervisor) (m : Metrics) (now : Moment) :
    (r.step s m now).1.rank < r.rank ∨
      (r.step s m now).1 = r ∧ r.wait s now ≠ .ready := by
  cases r with
  | done outcome => exact absurd rfl (hposting outcome)
  | posting k p =>
    cases p with
    | trying item => exact h.elim
    | calling item call due => exact h.elim
    | sending item =>
      simp only [Reporting.step, Retry.Posting.step, Retry.Posting.send]
      split_ifs <;> exact .inl (by simp [rank])
    | waiting item ticket =>
      simp only [Reporting.step, Retry.Posting.step]
      split_ifs with hgranted
      · exact .inl (by simp [rank])
      · refine .inr ⟨rfl, ?_⟩
        simp [Reporting.wait, Retry.Posting.wait, Wait.for, hgranted]
    | done outcome => exact .inl (by simp [Reporting.step, rank])

end Reporting

/-- How far a consumer that a failure has interrupted is from its end, once it is told to stop. -/
def Interrupted.rank : Interrupted → ℕ
  -- An event is left behind after at most two failures, that of the event and that of the progress
  -- before it, and each of them takes fewer than ten steps to be resolved.
  | .loading | .fetching | .closing _ => 1
  | .applying b _ => 40 * b.events.length + 11
  | .saving b _ => 40 * b.events.length + 20

/-- How far a consumer is from its end, once it is told to stop. An iteration that has begun is
followed through: what counts first is whether a batch may yet be fetched, then the events left in
the batch, and then the stage. -/
def Consumer.rank (c : Consumer) : ℕ ×ₗ ℕ :=
  match c.stage with
  | .ended | .crashed => toLex (0, 0)
  | .opening | .pausing _ _ | .idle => toLex (0, 1)
  | .loading => toLex (2, 0)
  | .fetching _ _ => toLex (1, 0)
  | .applying b _ => toLex (0, 40 * b.events.length + 35)
  | .saving b _ => toLex (0, 40 * b.events.length + 30)
  | .closing _ => toLex (0, 10)
  | .failing i _ => toLex (0, i.rank + 8)
  | .reporting i r => toLex (0, i.rank + r.rank)
  | .backingOff i _ => toLex (0, i.rank + 1)

/-! ## Steps -/

/-- A consumer is about to pause, against whatever instruction it was given in the meantime. -/
def Consumer.Overrides (c : Consumer) (now : Moment) : Prop :=
  ∃ i k d due, c.stage = .reporting i (.done (.ok k)) ∧
    (k = .pauseShard d ∨ k = .pauseAllShards d) ∧ now.after d = .ok due

/-- A part of a step of a consumer that is told to stop ends it with the status that it has stopped,
or leaves its status and crashes it or lowers its rank. -/
inductive Halts (shard : String) (status : ShardStatus) (rank : ℕ ×ₗ ℕ)
    (out : Consumer.Stepped L) : Prop where
  | ends (h : out.1.stage = .ended ∧ out.2.Stopping shard .stopped)
  | crashes (hs : out.2.Stopping shard status) (h : out.1.stage = .crashed)
  | goesOn (hs : out.2.Stopping shard status) (h : out.1.isOver = false) (hr : out.1.rank < rank)

/-- A rank that is lowered is lowered below any higher one. -/
theorem Halts.mono {shard : String} {status : ShardStatus} {rank rank' : ℕ ×ₗ ℕ}
    {out : Consumer.Stepped L} (h : Halts shard status rank out) (hr : rank ≤ rank') :
    Halts shard status rank' out := by
  cases h with
  | ends h => exact .ends h
  | crashes hs h => exact .crashes hs h
  | goesOn hs h hlt => exact .goesOn hs h (lt_of_lt_of_le hlt hr)

/-- Ranks of consumers that will not fetch any more compare by their second part. -/
theorem toLex_zero_lt {m n : ℕ} : toLex (0, m) < toLex (0, n) ↔ m < n := by
  simp [Prod.Lex.toLex_lt_toLex]

namespace Consumer

variable (c : Consumer) {s : Surroundings L} {status : ShardStatus} {rank : ℕ ×ₗ ℕ}

section

variable (hs : s.Stopping c.identity status)
include hs

/-- A consumer that ends has stopped. -/
theorem finish_ends :
    (c.finish s).1.stage = .ended ∧ (c.finish s).2.Stopping c.identity .stopped :=
  ⟨rfl, hs.modify fun _ hP => ⟨hP.1, rfl⟩⟩

/-- A consumer that is told to stop ends at the top of the next iteration. -/
theorem turn_ends : (c.turn s).1.stage = .ended ∧ (c.turn s).2.Stopping c.identity .stopped := by
  let seen : Consumer := { c with seenControl := (s.handle c.identity).control.version }
  unfold turn
  split_ifs
  · exact c.finish_ends hs
  · simp only [hs.handle.1]
    exact seen.finish_ends hs

/-- A consumer that is told to stop ends when a pause has elapsed. -/
theorem resume_ends {elapsed : Control} (helapsed : elapsed ≠ .stop) :
    (c.resume s elapsed).1.stage = .ended ∧
      (c.resume s elapsed).2.Stopping c.identity .stopped := by
  -- The pause that has elapsed is not the instruction any more, so that the stop is kept.
  have hkept : (s.modify c.identity (·.resumeAfter elapsed)).Stopping c.identity status :=
    hs.modify fun h hP => by
      have hne : h.control.value ≠ elapsed := fun heq => helapsed (heq.symm.trans hP.1)
      simpa only [ShardHandle.resumeAfter, if_neg hne] using hP
  have hrunning : ((s.modify c.identity (·.resumeAfter elapsed)).setStatus c.identity
      .running).Stopping c.identity .running := hkept.modify fun _ hP => ⟨hP.1, rfl⟩
  exact c.turn_ends hrunning

/-- A consumer that is told to stop and weighs its position fetches one more batch at most. -/
theorem weigh_halts (saved : Position) :
    Halts c.identity status (toLex (2, 0)) (c.weigh s saved) := by
  refine .goesOn hs ?_ ?_
  · simp only [weigh, at_, isOver]
    split_ifs <;> rfl
  · simp only [weigh, at_, Consumer.rank]
    split_ifs <;> simp [Prod.Lex.toLex_lt_toLex]

/-- A consumer that is told to stop ends when it gives up a batch. -/
theorem restart_ends (saved : Position) (flow : Flow) :
    (c.restart s saved flow).1.stage = .ended ∧
      (c.restart s saved flow).2.Stopping c.identity .stopped := by
  cases flow with
  | exit => exact finish_ends { c with position := some saved } hs
  | next => exact turn_ends { c with position := some saved } hs
  | refetch => exact turn_ends { c with position := some saved } hs

/-- A consumer that is told to stop ends with its batch, unless it crashes. -/
theorem commit_halts (now : Moment) (b : Batch) (saved : Position) :
    Halts c.identity status rank (c.commit s now b saved) := by
  have hreset : (s.modify c.identity (·.resetAttempts)).Stopping c.identity status :=
    hs.modify fun _ hP => hP
  unfold commit
  dsimp only
  split
  · exact .crashes hreset rfl
  · rename_i h
    obtain ⟨-, rfl⟩ := Prod.mk.inj h
    exact .ends (turn_ends { c with position := some saved } hreset)

variable [Projection π] (p : π)

omit hs in
/-- A consumer that turns to the events of a batch is not over. -/
theorem isOver_advance (b : Batch) (now : Moment) : (c.advance p b now).isOver = false := by
  unfold advance
  split <;> rfl

omit hs in
/-- The rank of a consumer that turns to the events of a batch. -/
theorem rank_advance (b : Batch) (now : Moment) :
    (c.advance p b now).rank ≤ toLex (0, 40 * b.events.length + 35) := by
  unfold advance
  split
  · rename_i h
    simp [Consumer.rank, at_, h, Prod.Lex.toLex_le_toLex]
  · exact le_refl _

/-- A consumer that is told to stop and turns to the events of a batch comes below every rank above
that of the batch. -/
theorem advance_halts (b : Batch) (now : Moment)
    (hrank : toLex (0, 40 * b.events.length + 35) < rank) :
    Halts c.identity status rank (c.advance p b now, s) :=
  .goesOn hs (c.isOver_advance p b now) (lt_of_le_of_lt (c.rank_advance p b now) hrank)

/-- A consumer that is told to stop and has tried an event comes closer to its end. -/
theorem applied_halts (now : Moment) {b : Batch} {e : EventRecord} {rest : List EventRecord}
    (hevents : b.events = e :: rest) (result : Applied) :
    Halts c.identity status (toLex (0, 40 * b.events.length + 35))
      (c.applied p s now b e rest result) := by
  cases result with
  | ok =>
    refine c.advance_halts hs p _ now (toLex_zero_lt.mpr ?_)
    simp only [hevents, List.length_cons]
    omega
  | crashed => exact .crashes hs rfl
  | failed cause =>
    -- The event stays in the batch, so that only the stage counts.
    simp only [applied]
    split_ifs
    · exact .goesOn hs rfl (toLex_zero_lt.mpr (by simp only [Interrupted.rank]; omega))
    · exact .goesOn hs rfl (toLex_zero_lt.mpr (by omega))

/-- A consumer that is told to stop and goes on after a failure comes closer to its end. -/
theorem goOn_halts (now : Moment) (i : Interrupted) (flow : Flow) :
    Halts c.identity status (toLex (0, i.rank + 1)) (c.goOn p s now i flow) := by
  cases i with
  | loading =>
    simp only [goOn]
    split_ifs
    · exact .ends (c.finish_ends hs)
    · exact .ends (c.turn_ends hs)
  | fetching =>
    simp only [goOn]
    split_ifs
    · exact .ends (c.finish_ends hs)
    · exact .ends (c.turn_ends hs)
  | saving b cause =>
    simp only [goOn]
    split_ifs
    · refine .goesOn hs rfl ?_
      simp [Consumer.rank, Interrupted.rank, at_, Prod.Lex.toLex_lt_toLex]
    · exact .ends (c.restart_ends hs _ flow)
  | applying b saved =>
    simp only [goOn]
    split_ifs
    · -- Leaving the event behind makes up for all the steps that its failure has taken.
      split
      · rename_i h
        refine .goesOn hs (c.isOver_advance p b now) ?_
        simp [Consumer.rank, Interrupted.rank, advance, at_, h, Prod.Lex.toLex_lt_toLex]
      · rename_i e rest h
        refine c.advance_halts ?_ p _ now (toLex_zero_lt.mpr ?_)
        · exact hs
        · simp only [Interrupted.rank, h, List.length_cons]
          omega
    · exact .ends (c.restart_ends hs _ flow)
  | closing b => exact .ends (c.restart_ends hs _ flow)

/-- A consumer that is told to stop and acts on a continuation comes closer to its end, unless the
continuation is a pause. -/
theorem act_halts (now : Moment) (i : Interrupted) (outcome : Except Error Continuation)
    (hnot : ∀ k d, outcome = .ok k → (k = .pauseShard d ∨ k = .pauseAllShards d) →
      ∀ due, now.after d ≠ .ok due) :
    Halts c.identity status (toLex (0, i.rank + 2)) (c.act p s now i outcome) := by
  have hle : toLex (0, i.rank + 1) ≤ toLex (0, i.rank + 2) := (toLex_zero_lt.mpr (by omega)).le
  have hpause {k : Continuation} {d : Duration} (hk : k = .pauseShard d ∨ k = .pauseAllShards d)
      (hd : ∀ due, now.after d ≠ .ok due) :
      Halts c.identity status (toLex (0, i.rank + 2)) (c.act p s now i (.ok k)) := by
    rcases c.act_pause p s now i hk with ⟨due, hdue, -⟩ | ⟨-, hcrashed⟩
    · exact absurd hdue (hd due)
    · rw [hcrashed]
      exact .crashes hs rfl
  -- A stop on top of a stop keeps the shard told to stop.
  have hstop : Halts c.identity status (toLex (0, i.rank + 2))
      (c.goOn p (s.modify c.identity (·.stop)) now i .exit) :=
    (c.goOn_halts (hs.modify (f := (·.stop)) fun _ hP => ⟨rfl, hP.2⟩) p now i .exit).mono hle
  cases outcome with
  | error e => exact hstop
  | ok k =>
    cases k with
    | skipEvent => exact (c.goOn_halts hs p now i .next).mono hle
    | doNothing => exact (c.goOn_halts hs p now i .next).mono hle
    | retryLater d =>
      simp only [act]
      split_ifs
      · exact (c.goOn_halts hs p now i .exit).mono hle
      · exact .goesOn hs rfl (toLex_zero_lt.mpr (by omega))
    | pauseShard d => exact hpause (.inl rfl) (hnot _ d rfl (.inl rfl))
    | pauseAllShards d => exact hpause (.inr rfl) (hnot _ d rfl (.inr rfl))
    | stopShard => exact hstop
    | stopAllShards => exact hstop

omit [Projection π] in
/-- A consumer that is told to stop and calls the log comes closer to its end, if it does so once it
is answered. -/
theorem proceed_halts {α : Type} (i : Interrupted) (category : Category) (now : Moment)
    (f : LogCall L α) {k : α → Surroundings L → Stepped L}
    (hi : toLex (0, i.rank + 8) < rank)
    (hk : ∀ a s', s'.Stopping c.identity status → Halts c.identity status rank (k a s')) :
    Halts c.identity status rank (c.proceed i category (s.call now f) k) := by
  cases h : s.call now f with
  | mk outcome s' =>
    have hs' : s'.Stopping c.identity status := by
      obtain ⟨handle, hfind, hP⟩ := hs
      exact ⟨handle, by rw [Surroundings.supervisor_of_call h]; exact hfind, hP⟩
    cases outcome with
    | ok a => exact hk a s' hs'
    | error fault =>
      cases fault with
      | error e => exact .goesOn hs' rfl hi
      | crash cause => exact .crashes hs' rfl

end

variable [EventLog L] [Projection π] (p : π)

/-- Every step of a consumer that is told to stop, and does not override it, ends it with the status
that it has stopped, or leaves its status and crashes it or lowers its rank, unless it waits. -/
theorem step_halts (hc : c.Tidy) (hs : s.Stopping c.identity status) {now : Moment}
    (hnot : ¬ c.Overrides now) :
    Halts c.identity status c.rank ((c.step p s now).1, (c.step p s now).2.2) ∨
      (c.step p s now).1.stage = c.stage ∧ (c.step p s now).2.2.Stopping c.identity status ∧
        c.wait s now ≠ .ready := by
  obtain ⟨identity, stage, seenMark, seenControl, position⟩ := c
  let c : Consumer := ⟨identity, stage, seenMark, seenControl, position⟩
  cases stage with
  | opening =>
    have hrunning : (s.begun identity).Stopping identity .running :=
      hs.modify fun _ hP => ⟨hP.1, rfl⟩
    simp only [step]
    rw [c.stepAside_opening rfl]
    exact .inl (.ends ((c.begun s).turn_ends hrunning))
  | pausing elapsed due =>
    simp only [step, stepAside]
    split_ifs with hshutdown hnew hdue
    · exact .inl (.ends (c.finish_ends hs))
    · exact .inl (.ends (c.turn_ends hs))
    · exact .inl (.ends (c.resume_ends hs hc))
    · exact .inr ⟨rfl, hs, by simp [wait, hshutdown, hnew, hdue, Wait.either, Wait.till]⟩
  | loading =>
    refine .inl (c.proceed_halts hs .loading _ now _ ?_ fun a s' hs' => ?_)
    · simp [Consumer.rank, Prod.Lex.toLex_lt_toLex]
    · obtain ⟨saved, updated⟩ := a
      have hloaded : (s'.modify identity ({ · with position := saved })).Stopping identity status :=
        hs'.modify fun _ hP => hP
      refine weigh_halts { c with position := some saved } ?_ saved
      exact hloaded
  | idle => exact .inl (.ends (c.turn_ends hs))
  | fetching committed mark =>
    -- However many events the batch has, it ranks below its being fetched.
    refine .inl (c.proceed_halts hs .fetching _ now _ ?_ fun a s' hs' =>
      c.advance_halts hs' p _ now ?_)
    · simp [Consumer.rank, Prod.Lex.toLex_lt_toLex]
    · simp [Consumer.rank, Prod.Lex.toLex_lt_toLex]
  | applying b due =>
    refine .inl ?_
    simp only [step]
    cases hevents : b.events with
    | nil =>
      refine .goesOn hs rfl (toLex_zero_lt.mpr ?_)
      omega
    | cons e rest => exact c.applied_halts hs _ now hevents _
  | saving b cause =>
    refine .inl (c.proceed_halts hs (.saving b cause) _ now _ ?_ fun a s' hs' => ?_)
    · exact toLex_zero_lt.mpr (by simp only [Interrupted.rank]; omega)
    · refine .goesOn (hs'.modify (f := ({ · with position := b.handled })) fun _ hP => hP) rfl ?_
      exact toLex_zero_lt.mpr (by simp only [Interrupted.rank]; omega)
  | closing b =>
    simp only [step, stepAside]
    split_ifs
    · exact .inl (c.commit_halts hs now b _)
    · refine .inl (c.proceed_halts hs (.closing b) _ now _ ?_ fun a s' hs' => ?_)
      · exact toLex_zero_lt.mpr (by simp only [Interrupted.rank]; omega)
      · exact c.commit_halts (hs'.modify (f := ({ · with position := b.target })) fun _ hP => hP)
          now b _
  | failing i e =>
    obtain ⟨handle, hfind, hstop, hstatus⟩ := hs
    obtain ⟨handle', hfind', hcontrol, hstatus'⟩ :=
      s.supervisor.find?_report_some s.commons.metrics identity e hfind
    refine .inl (.goesOn ⟨handle', hfind', hcontrol ▸ hstop, hstatus' ▸ hstatus⟩
      rfl (toLex_zero_lt.mpr ?_))
    exact Nat.add_lt_add_left (Reporting.rank_report s.supervisor s.commons.metrics identity e) _
  | reporting i r =>
    cases r with
    | done outcome =>
      refine .inl (c.act_halts hs p now i outcome fun k d hk hpause due hdue => ?_)
      exact hnot ⟨i, k, d, due, by rw [hk], hpause, hdue⟩
    | posting k present =>
      -- A report that waits for a worker changes no handle.
      have hstays : (c.step p s now).2.2.Stopping identity status := by
        obtain ⟨handle, hfind, hP⟩ := hs
        have hsame := congrArg (Registry.find? · identity) (hc.shards_step s.supervisor
          s.commons.metrics now)
        exact ⟨handle, hsame.trans hfind, hP⟩
      rcases hc.rank_step (by simp) s.supervisor s.commons.metrics now with hlt | ⟨heq, hwait⟩
      · exact .inl (.goesOn hstays rfl (toLex_zero_lt.mpr (Nat.add_lt_add_left hlt _)))
      · refine .inr ⟨congrArg (ConsumerStage.reporting i) heq, hstays, ?_⟩
        simpa only [wait] using hwait
  | backingOff i due =>
    simp only [step, stepAside]
    refine .inl ?_
    exact c.goOn_halts hs p now i _
  | ended => exact .inr ⟨rfl, hs, by simp [wait]⟩
  | crashed => exact .inr ⟨rfl, hs, by simp [wait]⟩

/-- A consumer that overrides its instruction is told to pause afterwards. -/
theorem instructed_of_overrides {P : ShardHandle → Prop} (hs : s.Reads c.identity P) {now : Moment}
    (h : c.Overrides now) :
    ∃ due, (c.step p s now).2.2.Instructed c.identity (.pause due) := by
  obtain ⟨identity, stage, seenMark, seenControl, position⟩ := c
  let c : Consumer := ⟨identity, stage, seenMark, seenControl, position⟩
  obtain ⟨i, k, d, due, rfl, hk, hdue⟩ := h
  rcases c.act_pause p s now i hk with ⟨due', -, hpaused⟩ | ⟨hcrashed, -⟩
  · refine ⟨due', ?_⟩
    simp only [step, stepAside]
    rw [hpaused]
    exact (c.goOn_heeds _ p now i .refetch).instructed _ (hs.modify fun _ _ => rfl)
  · exact absurd hdue (hcrashed due)

end Consumer

end Tidemark
