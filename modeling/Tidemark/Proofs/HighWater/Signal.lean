import Mathlib.Tactic.IntervalCases
import Tidemark.Proofs.HighWater.Course
import Tidemark.Rehearsal.Log

/-!
# The stop signal

From the moment at which the agent is told to stop, its loops publish nothing of what their rounds
find: before they publish they look at the stop signal (`DetectionLoop.Heeds`). The first scan of a
loop that replaces a dead one does not. So a mark that is published while the agent is being stopped
is always one that such a scan has found (`AgentCourse.publishes_stopping_iff`), and it happens
(`AgentCourse.exists_published_stopping`).
-/

namespace Tidemark

/-! ## Loops -/

section Loops

variable {L : Type}

/-- A step of a scan publishes nothing. -/
theorem Scan.step_tracker [EventLog L] (s : Scan) (c : Commons L) (now : Moment) :
    (s.step c now).2.tracker = c.tracker := by
  unfold step
  dsimp only
  split
  · rfl
  · rfl
  · split_ifs <;> rfl
  · rfl

namespace Detection

/-- The settings and the stop signal are the same. -/
structure Same (d d' : Detection) : Prop where
  config : d'.config = d.config
  stopping : d'.stopping = d.stopping

/-- Publishing changes no setting and no signal. -/
theorem publish_same (d : Detection) (c : Commons L) (found : Statistics) :
    Same d (d.publish c found).2.1 := by
  unfold publish
  dsimp only
  split <;> exact ⟨rfl, rfl⟩

/-- What is published is the mark that was found, if it is higher. -/
theorem publish_tracker (d : Detection) (c : Commons L) (found : Statistics) :
    (d.publish c found).2.2.tracker = (c.tracker.markHighWater found.currentMark).2 := by
  unfold publish
  dsimp only
  split
  · next heq => exact congrArg (·.2.tracker) heq.symm
  · next heq => exact congrArg (·.2.tracker) heq.symm

end Detection

namespace DetectionLoop

/-- A part of a step of a loop leaves the settings and the stop signal alone, and publishes nothing
while the agent is being stopped. -/
structure Heeds (d : Detection) (c : Commons L) (out : Stepped L) : Prop where
  same : d.Same out.2.1
  hushed : d.stopping.value = true → out.2.2.tracker = c.tracker

variable (l : DetectionLoop) (d : Detection) (c : Commons L) (now : Moment)

/-- What publishes nothing heeds the stop signal. -/
theorem Heeds.of_tracker {d : Detection} {c c' : Commons L} (l : Option DetectionLoop)
    (h : c'.tracker = c.tracker) : Heeds d c (l, d, c') :=
  ⟨⟨rfl, rfl⟩, fun _ => h⟩

/-- Nothing else was published before. -/
theorem Heeds.after {d : Detection} {c c' : Commons L} {out : Stepped L} (h : Heeds d c' out)
    (hc : c'.tracker = c.tracker) : Heeds d c out :=
  ⟨h.same, fun hstopping => (h.hushed hstopping).trans hc⟩

variable [EventLog L]

omit [EventLog L] in
/-- Publishing heeds the stop signal. -/
theorem publish_heeds (found : Statistics) (rhythm : Rhythm) (delay : Duration) :
    Heeds d c (l.publish d c now found rhythm delay) := by
  have hsame := d.publish_same c found
  unfold publish
  split_ifs with hstopping
  · exact .of_tracker _ rfl
  · -- The signal is looked at, and is not set.
    have hnot (out : Stepped L) (h : d.Same out.2.1) : Heeds d c out :=
      ⟨h, fun hset => absurd hset hstopping⟩
    split
    · next heq =>
      rw [heq] at hsame
      exact hnot _ hsame
    · next heq =>
      rw [heq] at hsame
      exact hnot _ hsame

/-- Waiting for writers heeds the stop signal. -/
theorem bide_heeds (previous found : Statistics) (rhythm : Rhythm) :
    Heeds d c (l.bide d c now previous found rhythm) := by
  unfold bide
  split
  · exact .of_tracker _ rfl
  · dsimp only
    split_ifs <;> exact .of_tracker _ rfl

/-- Going on with what a scan has found heeds the stop signal. -/
theorem classify_heeds (previous found : Statistics) (rhythm : Rhythm) :
    Heeds d c (l.classify d c now previous found rhythm) := by
  unfold classify
  dsimp only
  split
  · exact (l.publish_heeds d _ now found rhythm rhythm.fast).after rfl
  · exact (l.publish_heeds d _ now found rhythm rhythm.slow).after rfl
  · exact (l.bide_heeds d _ now previous found rhythm).after rfl

omit [EventLog L] in
/-- Going on after a scan that failed heeds the stop signal. -/
theorem recover_heeds (previous : Statistics) (rhythm : Rhythm) (fault : Fault) :
    Heeds d c (l.recover d c now previous rhythm fault) := by
  cases fault <;> exact .of_tracker _ rfl

/-- The mark that a loop has found with the last step of its first scan. -/
def firstMark (l : DetectionLoop) (c : Commons L) (now : Moment) : Option Position :=
  match l.stage with
  | .bootstrapping scan =>
    match (scan.step c now).1 with
    | .ended (.ok found) => some found.currentMark
    | _ => none
  | _ => none

/-- A step of a loop leaves the settings and the stop signal alone, and publishes nothing but the
result of a first scan while the agent is being stopped. -/
theorem step_published :
    d.Same (l.step d c now).2.1 ∧ (d.stopping.value = true →
      (l.step d c now).2.2.tracker =
        (l.firstMark c now).elim c.tracker fun p => (c.tracker.markHighWater p).2) := by
  have hheeds {out : Stepped L} (h : Heeds d c out) :
      d.Same out.2.1 ∧ (d.stopping.value = true → out.2.2.tracker = c.tracker) :=
    ⟨h.same, h.hushed⟩
  have hasked {c' : Commons L} (h : c'.tracker = c.tracker) :
      d.Same d ∧ (d.stopping.value = true → c'.tracker = c.tracker) :=
    ⟨⟨rfl, rfl⟩, fun _ => h⟩
  obtain ⟨stage, seen⟩ := l
  cases stage with
  | bootstrapping scan =>
    have htracker := scan.step_tracker c now
    simp only [step, firstMark]
    split
    · next heq =>
      rw [heq] at htracker
      simp only [heq]
      exact hasked htracker
    · next found c' heq =>
      rw [heq] at htracker
      simp only [heq, Option.elim_some]
      -- The first scan has found a mark, which is published whatever the signal says.
      have hsame := d.publish_same c' found
      have hpublished := d.publish_tracker c' found
      rw [htracker] at hpublished
      split
      · next hpublish =>
        rw [hpublish] at hsame hpublished
        exact ⟨hsame, fun _ => hpublished⟩
      · next hpublish =>
        rw [hpublish] at hsame hpublished
        exact ⟨hsame, fun _ => hpublished⟩
    · next heq =>
      rw [heq] at htracker
      simp only [heq]
      exact hasked htracker
    · next heq =>
      rw [heq] at htracker
      simp only [heq]
      exact hasked htracker
  | opening previous =>
    simp only [step]
    split <;> exact hasked rfl
  | running previous rhythm activity =>
    cases activity with
    | detecting scan =>
      have htracker := scan.step_tracker c now
      simp only [step]
      split
      · next heq =>
        rw [heq] at htracker
        exact hasked htracker
      · next heq =>
        rw [heq] at htracker
        exact hheeds ((classify_heeds _ d _ now previous _ rhythm).after htracker)
      · next heq =>
        rw [heq] at htracker
        exact hheeds ((recover_heeds _ d _ now previous rhythm _).after htracker)
    | biding due harbor =>
      simp only [step]
      split <;> exact hasked rfl
    | rescanning scan =>
      have htracker := scan.step_tracker c now
      simp only [step]
      split
      · next heq =>
        rw [heq] at htracker
        exact hasked htracker
      · next heq =>
        rw [heq] at htracker
        exact hheeds ((publish_heeds _ d _ now _ rhythm _).after htracker)
      · next heq =>
        rw [heq] at htracker
        exact hheeds ((recover_heeds _ d _ now previous rhythm _).after htracker)
    | sleeping due =>
      simp only [step]
      split <;> exact hasked rfl

end DetectionLoop

end Loops

/-! ## Agents -/

variable {L : Type} [EventLog L]

/-- A beat changes no setting and no signal, and publishes and records nothing. -/
structure Agent.Unheard (a : Agent) (c : Commons L) (out : Agent × Commons L) : Prop where
  detection : out.1.detection = a.detection
  tracker : out.2.tracker = c.tracker
  log : out.2.log = c.log

omit [EventLog L] in
/-- Nothing is heard of a beat. -/
theorem Agent.Beaten.unheard {a : Agent} {c : Commons L} {out : Agent × Commons L}
    (h : Beaten a c out) : Unheard a c out := by
  cases h <;> exact ⟨rfl, rfl, rfl⟩

/-- The mark that a task has found with the last step of a first scan. -/
def Agent.firstMark (a : Agent) (c : Commons L) (now : Moment) : AgentTask → Option Position
  | .loop k => (a.loops.lookup k).bind (·.firstMark c now)
  | .heartbeat => none

/-- A step of a task leaves the settings and the stop signal alone, and publishes nothing but the
result of a first scan while the agent is being stopped. -/
theorem Agent.step_published (a : Agent) (c : Commons L) (now : Moment) (task : AgentTask) :
    a.detection.Same (a.step c now task).1.detection ∧ (a.detection.stopping.value = true →
      (a.step c now task).2.tracker =
        (a.firstMark c now task).elim c.tracker fun p => (c.tracker.markHighWater p).2) := by
  cases task with
  | loop k =>
    simp only [step, firstMark]
    cases hl : a.loops.lookup k with
    | none => exact ⟨⟨rfl, rfl⟩, fun _ => rfl⟩
    | some l => exact l.step_published a.detection c now
  | heartbeat =>
    obtain ⟨hdetection, htracker, -⟩ := (a.beaten_stepHeartbeat c now).unheard
    exact ⟨⟨congrArg _ hdetection, congrArg _ hdetection⟩, fun _ => htracker⟩

namespace AgentState

/-- The agent is being stopped or was stopped, and nobody is starting it. -/
structure Hushed (s : AgentState L) : Prop where
  stopping : s.agent.detection.stopping.value = true
  call : s.call.isStarting = false

/-- The mark that a move finds with the last step of the first scan of a loop. -/
def firstMark (s : AgentState L) : AgentMove L → Option Position
  | .task now task => s.agent.firstMark s.commons now task
  | _ => none

variable {s : AgentState L}

/-- Who begins to stop the agent hushes it. -/
theorem hushed_stop (h : s.call.isOver = true) : (s.perform .stop).Hushed := by
  simp only [perform, h, if_true]
  exact ⟨rfl, rfl⟩

/-- An agent that is hushed stays so until it is started, and publishes nothing but the results of
first scans. -/
theorem Hushed.perform (h : s.Hushed) (m : AgentMove L) :
    (m.isStart = false → (s.perform m).Hushed) ∧ (m.isOwn = true → (s.perform m).commons.tracker =
      (s.firstMark m).elim s.commons.tracker fun p => (s.commons.tracker.markHighWater p).2) := by
  cases m with
  | task now task =>
    obtain ⟨⟨-, hstopping⟩, htracker⟩ := s.agent.step_published s.commons now task
    exact ⟨fun _ => ⟨(congrArg _ hstopping).trans h.stopping, h.call⟩,
      fun _ => htracker h.stopping⟩
  | late now =>
    obtain ⟨hdetection, htracker, -⟩ := (s.agent.beaten_lateBeat s.commons now).unheard
    exact ⟨fun _ => ⟨(congrArg (·.stopping.value) hdetection).trans h.stopping, h.call⟩,
      fun _ => htracker⟩
  | start now =>
    refine ⟨nofun, fun _ => ?_⟩
    simp only [AgentState.perform]
    split <;> rfl
  | stop =>
    cases hover : s.call.isOver with
    | true =>
      refine ⟨fun _ => hushed_stop hover, fun _ => ?_⟩
      simp only [AgentState.perform, hover]
      rfl
    | false =>
      simp only [AgentState.perform, hover]
      exact ⟨fun _ => h, fun _ => rfl⟩
  | call now =>
    simp only [AgentState.perform]
    split_ifs
    · cases hcall : s.call with
      | starting scan =>
        have hnot := h.call
        simp [AgentCall.isStarting, hcall] at hnot
      | _ => exact ⟨fun _ => ⟨h.stopping, rfl⟩, fun _ => rfl⟩
    · exact ⟨fun _ => h, fun _ => rfl⟩
  | elsewhere f => exact ⟨fun _ => ⟨h.stopping, h.call⟩, nofun⟩

end AgentState

/-- A tracker has another mark afterwards exactly if it is handed a higher one. -/
theorem Tracker.markHighWater_ne_iff (t : Tracker) (p : Position) :
    (t.markHighWater p).2.mark ≠ t.mark ↔ t.highWaterMark < p := by
  unfold markHighWater highWaterMark
  split_ifs with hp
  · exact iff_of_true (fun heq => hp.ne (congrArg Watched.value heq).symm) hp
  · exact iff_of_false (fun hne => hne rfl) hp

/-! ## Courses -/

namespace AgentCourse

/-- A move of the agent, or of whoever starts or stops it, publishes a mark. -/
def Publishes (x : AgentCourse L) (n : ℕ) : Prop :=
  (x.move n).isOwn = true ∧
    (x.state (n + 1)).commons.tracker.mark ≠ (x.state n).commons.tracker.mark

/-- Someone began to stop the agent, and nobody has started it since. -/
def Stopping (x : AgentCourse L) (n : ℕ) : Prop :=
  ∃ i < n, (x.move i).isStop = true ∧ (x.state i).call.isOver = true ∧
    ∀ k, i < k → k < n → (x.move k).isStart = false

variable {x : AgentCourse L} {n : ℕ}

/-- An agent that someone stops is hushed until it is started. -/
theorem Stopping.hushed (h : x.Stopping n) : (x.state n).Hushed := by
  obtain ⟨i, hin, hstop, hover, hstill⟩ := h
  induction n, hin using Nat.le_induction with
  | base =>
    cases hmove : x.move i with
    | stop =>
      rw [state, hmove]
      exact AgentState.hushed_stop hover
    | _ => simp [hmove, AgentMove.isStop] at hstop
  | succ n hin ih =>
    have hhushed := ih fun k hik hkn => hstill k hik (by omega)
    exact (hhushed.perform (x.move n)).1 (hstill n hin (by omega))

/-- Once someone has begun to stop the agent, and until it is started again, a move publishes a mark
exactly if it is the last step of the first scan of a loop that has replaced a dead one, and the
mark found by it is higher than the published one. -/
theorem publishes_stopping_iff (h : x.Stopping n) :
    x.Publishes n ↔ ∃ p ∈ (x.state n).firstMark (x.move n),
      (x.state n).commons.tracker.highWaterMark < p := by
  have htracker := (h.hushed.perform (x.move n)).2
  unfold Publishes
  rw [state]
  cases hfirst : (x.state n).firstMark (x.move n) with
  | none =>
    rw [hfirst] at htracker
    refine iff_of_false (fun ⟨hown, hne⟩ => hne ?_) (by simp)
    rw [htracker hown, Option.elim_none]
  | some p =>
    -- Such a move is one of a loop.
    have hown : (x.move n).isOwn = true := by
      cases hm : x.move n with
      | elsewhere f => simp [hm, AgentState.firstMark] at hfirst
      | _ => rfl
    rw [htracker hown, hfirst, Option.elim_some, Tracker.markHighWater_ne_iff]
    simp [hown]

end AgentCourse

/-! ## Rehearsals -/

/-- Someone does something to the log of a rehearsal. -/
def AgentMove.changing (action : Rehearsal.LogAction) : AgentMove Rehearsal.FaultyLog :=
  .elsewhere fun c => { c with log := (c.log.perform (c.time 0) action).2 }

/-- A position is committed, and an agent is started: it finds the position with a first scan and
sets off a loop, which begins to scan. -/
def AgentMove.opening : List (AgentMove Rehearsal.FaultyLog) :=
  [.changing (.commit [1] "" 0), .start 0, .call 0, .call 0, .call 0, .call 0, .task 0 (.loop 0)]

/-- A course of an agent that is started, while a position is committed. -/
def AgentCourse.rehearsal (config : Config.Polling) (moves : List (AgentMove Rehearsal.FaultyLog)) :
    AgentCourse Rehearsal.FaultyLog :=
  .ofMoves config { log := {}, origin := ⟨0, false⟩ } (AgentMove.opening ++ moves)

namespace AgentCourse

open AgentMove

/-- The loop finds a higher mark with a round, and the agent is stopped before it publishes it. -/
def overtaken : AgentCourse Rehearsal.FaultyLog :=
  .rehearsal .forTesting [.changing (.commit [2] "" 0), .task 0 (.loop 0), .task 0 (.loop 0),
    .task 0 (.loop 0), .stop, .task 0 (.loop 0)]

/-- The loop dies with its first round and is replaced, and the agent is stopped while the new loop
makes its first scan. -/
def replaced : AgentCourse Rehearsal.FaultyLog :=
  .rehearsal .forTesting [.changing (.crashReads 1), .task 0 (.loop 0), .task 0 .heartbeat,
    .task 25000000 .heartbeat, .changing (.commit [2] "" 0), .stop, .task 25000000 (.loop 1),
    .task 25000000 (.loop 1), .task 25000000 (.loop 1), .task 25000000 (.loop 1)]

/-- What a round has found when the agent is stopped is recorded and not published. -/
theorem unpublished_in_rehearsal :
    overtaken.Stopping 12 ∧ (overtaken.state 13).commons.tracker.highWaterMark = 1 ∧
      ¬ overtaken.Publishes 12 := by
  have hstopping : overtaken.Stopping 12 :=
    ⟨11, by decide, rfl, by decide +kernel, fun k hk hk' => by omega⟩
  refine ⟨hstopping, by decide +kernel, fun hpublishes => ?_⟩
  obtain ⟨p, hp, -⟩ := (publishes_stopping_iff hstopping).mp hpublishes
  have hnone : (overtaken.state 12).firstMark (overtaken.move 12) = none := by decide +kernel
  simp [hnone] at hp

/-- What the first scan of a new loop finds while the agent is being stopped is published. -/
theorem exists_published_stopping :
    ∃ (x : AgentCourse Rehearsal.FaultyLog) (n : ℕ), x.Stopping n ∧ x.Publishes n ∧
      (x.state n).commons.tracker.highWaterMark = 1 ∧
        (x.state (n + 1)).commons.tracker.highWaterMark = 2 := by
  have hbefore : (replaced.state 16).commons.tracker.highWaterMark = 1 := by decide +kernel
  have hafter : (replaced.state 17).commons.tracker.highWaterMark = 2 := by decide +kernel
  refine ⟨replaced, 16, ⟨12, by decide, rfl, by decide +kernel, ?_⟩, ⟨rfl, ?_⟩, hbefore, hafter⟩
  · intro k hk hk'
    interval_cases k <;> rfl
  · intro heq
    have hmark : (replaced.state 17).commons.tracker.highWaterMark =
        (replaced.state 16).commons.tracker.highWaterMark := congrArg Watched.value heq
    rw [hbefore, hafter] at hmark
    cases hmark

end AgentCourse

end Tidemark
