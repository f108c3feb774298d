import Tidemark.Proofs.HighWater.Signal
import Tidemark.Proofs.HighWater.Upkeep

/-!
# An agent that is being stopped comes to its end

How many steps the heartbeat and the loop of an agent take at most once the agent is being stopped
are numbers (`Agent.beatsLeft`, `Agent.stepsLeft`), and every step lowers them, whatever the scans
of the loop find and however they fail. Nobody raises them: others have no say in the heartbeat, and
once it has ended no loop is replaced any more.
-/

namespace Tidemark

variable {L : Type} [EventLog L]

/-! ## Loops -/

/-- A scan that goes on has fewer round trips left. -/
theorem Scan.rank_of_more {s s' : Scan} {c c' : Commons L} {now : Moment}
    (h : s.step c now = (.more s', c')) : s'.pass.rank < s.pass.rank := by
  rcases hstep : Pass.step s.pass c.log (c.time now) with ⟨(e | cause) | next, log'⟩
  · simp [step, Commons.call, hstep] at h
  · simp [step, Commons.call, hstep] at h
  · cases next with
    | more pass =>
      simp only [step, Commons.call, hstep, Prod.mk.injEq, Next.more.injEq] at h
      exact h.1 ▸ Pass.rank_lt_of_step hstep
    | found found => simp [step, Commons.call, hstep] at h

/-- How many steps a loop takes at most while its agent is being stopped. -/
def LoopStage.left : LoopStage → ℕ
  | .bootstrapping scan => scan.pass.rank + 2
  | .opening _ => 1
  | .running _ _ (.sleeping _) => 1
  | .running _ _ (.rescanning scan) => scan.pass.rank + 1
  | .running _ _ (.biding _ _) => 6
  | .running _ _ (.detecting scan) => scan.pass.rank + 7

/-- A loop that goes on takes a step. -/
theorem LoopStage.left_pos (stage : LoopStage) : 0 < stage.left := by
  rcases stage with scan | found | ⟨previous, rhythm, activity⟩
  · exact Nat.succ_pos _
  · exact Nat.one_pos
  · cases activity <;> exact Nat.succ_pos _

namespace DetectionLoop

omit [EventLog L] in
/-- A loop that notices that its agent is being stopped ends. -/
theorem unlessStopping_ends (l : DetectionLoop) {d : Detection} (hstop : d.stopping.value = true)
    (c : Commons L) (stage : LoopStage) : (l.unlessStopping d c stage).1 = none := if_pos hstop

variable (l : DetectionLoop) {d : Detection} (hstop : d.stopping.value = true) (c : Commons L)
  (now : Moment)

include hstop

omit [EventLog L] in
/-- A loop that has something to publish ends instead. -/
theorem publish_ends (found : Statistics) (rhythm : Rhythm) (delay : Duration) :
    (l.publish d c now found rhythm delay).1 = none := by
  unfold publish
  rw [if_pos hstop]

omit [EventLog L] in
/-- A loop ends after a scan that went wrong. -/
theorem recover_ends (previous : Statistics) (rhythm : Rhythm) (fault : Fault) :
    (l.recover d c now previous rhythm fault).1 = none := by
  cases fault with
  | error e => exact l.unlessStopping_ends hstop _ _
  | crash cause => rfl

/-- A loop whose scan has ended makes another one at most. -/
theorem classify_left (previous found : Statistics) (rhythm : Rhythm) :
    ∀ l' ∈ (l.classify d c now previous found rhythm).1, l'.stage.left = 5 := by
  have hends {out : Stepped L} (h : out.1 = none) : ∀ l' ∈ out.1, l'.stage.left = 5 :=
    fun l' hl' => by rw [h] at hl'; cases hl'
  unfold classify
  dsimp only
  split
  · exact hends (l.publish_ends hstop _ now found rhythm _)
  · exact hends (l.publish_ends hstop _ now found rhythm _)
  · unfold bide
    split
    · exact hends rfl
    · dsimp only
      split_ifs
      · intro l' hl'
        obtain rfl := Option.some.inj hl'
        rfl
      · exact hends (l.unlessStopping_ends hstop _ _)

/-- A step of a loop leaves it with fewer steps, or ends it. -/
theorem left_step : ∀ l' ∈ (l.step d c now).1, l'.stage.left < l.stage.left := by
  have hends {out : Stepped L} (h : out.1 = none) :
      ∀ l' ∈ out.1, l'.stage.left < l.stage.left := fun l' hl' => by rw [h] at hl'; cases hl'
  have hgoes {l' : DetectionLoop} (h : l'.stage.left < l.stage.left) :
      ∀ l'' ∈ some l', l''.stage.left < l.stage.left := fun l'' hl'' => Option.some.inj hl'' ▸ h
  -- A scan has a step less left with each one, and before another scan the loop heeds the signal.
  obtain ⟨stage, seen⟩ := l
  rcases stage with scan | previous | ⟨previous, rhythm, activity⟩
  · simp only [step]
    split
    next heq => exact hgoes (Nat.add_lt_add_right (Scan.rank_of_more heq) 2)
    next =>
      split
      · exact hgoes (Nat.succ_lt_succ (Nat.succ_pos _))
      · exact hends rfl
    next => exact hends rfl
    next => exact hends rfl
  · simp only [step]
    split
    · exact hends (unlessStopping_ends _ hstop c _)
    · exact hends rfl
  · cases activity with
    | detecting scan =>
      simp only [step]
      split
      next heq => exact hgoes (Nat.add_lt_add_right (Scan.rank_of_more heq) 7)
      next =>
        intro l' hl'
        rw [classify_left _ hstop _ now previous _ rhythm l' hl']
        exact Nat.lt_of_lt_of_le (by decide) (Nat.le_add_left 7 _)
      next => exact hends (recover_ends _ hstop _ now previous rhythm _)
    | biding due harbor =>
      simp only [step]
      split
      · exact hgoes (Nat.lt_succ_self 5)
      · exact hends rfl
    | rescanning scan =>
      simp only [step]
      split
      next heq => exact hgoes (Nat.add_lt_add_right (Scan.rank_of_more heq) 1)
      next => exact hends (publish_ends _ hstop _ now _ rhythm _)
      next => exact hends (recover_ends _ hstop _ now previous rhythm _)
    | sleeping due =>
      simp only [step]
      split
      · exact hends (unlessStopping_ends _ hstop c _)
      · exact hends rfl

end DetectionLoop

omit [EventLog L] in
/-- A loop is ready sooner or later. -/
theorem DetectionLoop.exists_ready (l : DetectionLoop) (d : Detection) :
    ∃ now, l.wait d now = .ready := by
  obtain ⟨stage, seen⟩ := l
  rcases stage with scan | previous | ⟨previous, rhythm, activity⟩
  · exact ⟨scan.due, by simp [wait, Scan.wait, Wait.till]⟩
  · exact ⟨0, rfl⟩
  · cases activity with
    | detecting scan | rescanning scan => exact ⟨scan.due, by simp [wait, Scan.wait, Wait.till]⟩
    | biding due | sleeping due => exact ⟨due, by simp [wait, Wait.either, Wait.till]⟩

/-! ## Agents -/

/-- How many steps a heartbeat takes at most while its agent is being stopped. -/
def Heartbeat.left (h : Heartbeat) : ℕ := if h.ended then 0 else if h.next.isSome then 1 else 2

namespace Agent

/-- How many steps the heartbeat takes at most while the agent is being stopped. -/
def beatsLeft (a : Agent) : ℕ := a.heartbeat.elim 0 (·.left)

/-- How many steps the loop that the agent looks after takes at most while it is being stopped. -/
def stepsLeft (a : Agent) : ℕ := (a.watched.bind (a.loops.lookup ·)).elim 0 (·.stage.left)

variable (a : Agent) (c : Commons L) (now : Moment)

/-- Moving a loop on or removing it leaves the others alone. -/
theorem lookup_setLoop (j k : ℕ) (l : Option DetectionLoop) : (a.setLoop j l).loops.lookup k =
    if k = j then (a.loops.lookup k).bind fun _ => l else a.loops.lookup k := by
  unfold setLoop
  induction a.loops with
  | nil => simp
  | cons x loops ih =>
    obtain ⟨i, old⟩ := x
    by_cases hki : k = i
    · subst hki
      by_cases hkj : k = j
      · subst hkj
        cases l with
        | some l => simp
        | none => simpa using ih
      · simp [hkj]
    · have hbeq : (k == i) = false := beq_eq_false_iff_ne.mpr hki
      by_cases hij : i = j
      · subst hij
        cases l <;> simpa [List.lookup_cons, hbeq] using ih
      · simpa [List.lookup_cons, hbeq, hij] using ih

omit [EventLog L] in
/-- A heartbeat that has not ended is ready sooner or later. -/
theorem exists_heartbeat_ready (h : a.beatsLeft ≠ 0) : ∃ now, a.heartbeatWait now = .ready := by
  unfold beatsLeft at h
  cases hbeat : a.heartbeat with
  | none => simp [hbeat] at h
  | some beat =>
    have hgoes : beat.ended = false := by
      cases hended : beat.ended with
      | false => rfl
      | true => simp [hbeat, Heartbeat.left, hended] at h
    cases hnext : beat.next with
    | none => exact ⟨0, by simp [heartbeatWait, hbeat, hgoes, hnext]⟩
    | some due =>
      exact ⟨due, by simp [heartbeatWait, hbeat, hgoes, hnext, Wait.either, Wait.till]⟩

/-- A step of the heartbeat leaves it with fewer steps. -/
theorem beatsLeft_stepHeartbeat (hstop : a.detection.stopping.value = true)
    (hready : a.heartbeatWait now = .ready) :
    (a.stepHeartbeat c now).1.beatsLeft < a.beatsLeft := by
  unfold heartbeatWait at hready
  cases hbeat : a.heartbeat with
  | none => simp [hbeat] at hready
  | some beat =>
    have hgoes : beat.ended = false := by
      cases hended : beat.ended with
      | false => rfl
      | true => simp [hbeat, hended] at hready
    cases hnext : beat.next with
    | none =>
      have hleft : a.beatsLeft = 2 := by simp [beatsLeft, hbeat, Heartbeat.left, hgoes, hnext]
      rw [hleft]
      simp only [stepHeartbeat, hbeat, hnext]
      split_ifs
      · exact Nat.two_pos
      · simp [beatsLeft, Heartbeat.left, hgoes]
    | some due =>
      have hleft : a.beatsLeft = 1 := by simp [beatsLeft, hbeat, Heartbeat.left, hgoes, hnext]
      rw [hleft]
      simp only [stepHeartbeat, hbeat, hnext, hstop, if_true]
      split_ifs <;> exact Nat.one_pos

/-- A beat that comes late leaves the heartbeat with as many steps. -/
theorem beatsLeft_lateBeat : (a.lateBeat c now).1.beatsLeft = a.beatsLeft := by
  unfold lateBeat
  split
  next period seen due hbeat =>
    have hleft : a.beatsLeft = 1 := by simp [beatsLeft, hbeat, Heartbeat.left]
    rw [hleft]
    unfold revive
    split_ifs <;> rfl
  next => rfl

/-- The heartbeat has ended exactly if it takes no step any more. -/
theorem beatsLeft_eq_zero_iff : a.beatsLeft = 0 ↔ a.heartbeat.all (·.ended) = true := by
  unfold beatsLeft
  cases a.heartbeat with
  | none => simp
  | some beat =>
    obtain ⟨period, seen, next, ended⟩ := beat
    cases ended <;> cases next <;> simp [Heartbeat.left]

/-- A step of a loop leaves the heartbeat alone. -/
theorem heartbeat_step_loop (k : ℕ) : (a.step c now (.loop k)).1.heartbeat = a.heartbeat := by
  simp only [step]
  split <;> rfl

/-- A step of a loop leaves the agent to look after the same one. -/
theorem watched_step_loop (k : ℕ) : (a.step c now (.loop k)).1.watched = a.watched := by
  simp only [step]
  split <;> rfl

omit [EventLog L] in
/-- The loop that the agent looks after has ended exactly if it takes no step any more. -/
theorem stepsLeft_eq_zero_iff : a.stepsLeft = 0 ↔ a.watched.any a.isAlive = false := by
  unfold stepsLeft
  cases a.watched with
  | none => simp
  | some k =>
    have halive : a.isAlive k = (a.loops.lookup k).isSome := by
      unfold isAlive
      induction a.loops with
      | nil => rfl
      | cons x loops ih =>
        obtain ⟨i, l⟩ := x
        by_cases hki : k = i
        · simp [hki]
        · have hbeq : (k == i) = false := beq_eq_false_iff_ne.mpr hki
          have hbeq' : (i == k) = false := beq_eq_false_iff_ne.mpr (Ne.symm hki)
          simpa only [List.any_cons, List.lookup_cons, hbeq, hbeq', Bool.false_or] using ih
    rw [Option.any_some, halive]
    cases hl : a.loops.lookup k with
    | none => simp [hl]
    | some l => simpa [hl] using l.stage.left_pos.ne'

/-- A step of the loop that the agent looks after leaves it with fewer steps, and a step of another
loop with as many. -/
theorem stepsLeft_step_loop (hstop : a.detection.stopping.value = true) (k : ℕ) :
    (a.step c now (.loop k)).1.stepsLeft < a.stepsLeft ∨
      (a.step c now (.loop k)).1.stepsLeft = a.stepsLeft ∧
        (a.watched ≠ some k ∨ a.loops.lookup k = none) := by
  simp only [step]
  cases hl : a.loops.lookup k with
  | none => exact .inr ⟨rfl, .inr rfl⟩
  | some l =>
    have hless := l.left_step hstop c now
    by_cases hk : a.watched = some k
    · left
      have hleft : a.stepsLeft = l.stage.left := by simp [stepsLeft, hk, hl]
      rw [hleft]
      simp only [stepsLeft]
      rw [show Option.bind _ _ = (l.step a.detection c now).1 from ?_]
      · cases hnext : (l.step a.detection c now).1 with
        | none => exact l.stage.left_pos
        | some l' => exact hless l' hnext
      · show Option.bind a.watched _ = _
        rw [hk, Option.bind_some, lookup_setLoop, if_pos rfl]
        simp [hl]
    · right
      refine ⟨?_, .inl hk⟩
      unfold stepsLeft
      show (Option.bind a.watched _).elim _ _ = _
      cases hwatched : a.watched with
      | none => rfl
      | some j =>
        have hne : j ≠ k := fun heq => hk (heq ▸ hwatched)
        simp only [Option.bind_some]
        rw [lookup_setLoop, if_neg hne]

/-- A step of a task that is ready leaves the heartbeat with fewer steps, or it is a step of a loop
and leaves it with as many. -/
theorem beatsLeft_step (hstop : a.detection.stopping.value = true) {task : AgentTask}
    (hready : a.wait now task = .ready) :
    (a.step c now task).1.beatsLeft < a.beatsLeft ∨
      (a.step c now task).1.beatsLeft = a.beatsLeft ∧ task ≠ .heartbeat := by
  cases task with
  | heartbeat => exact .inl (a.beatsLeft_stepHeartbeat c now hstop hready)
  | loop k =>
    right
    unfold beatsLeft
    rw [a.heartbeat_step_loop c now k]
    exact ⟨rfl, by simp⟩

/-- Without a heartbeat, a step of a task leaves the loop that the agent looks after with fewer
steps, or it is not a step of this loop and leaves it with as many. -/
theorem stepsLeft_step (hstop : a.detection.stopping.value = true) (hnone : a.heartbeat = none)
    (task : AgentTask) :
    (a.step c now task).1.watched = a.watched ∧
      ((a.step c now task).1.stepsLeft < a.stepsLeft ∨
        (a.step c now task).1.stepsLeft = a.stepsLeft ∧
          ∀ k, task = .loop k → a.watched = some k → a.stepsLeft = 0) := by
  cases task with
  | heartbeat =>
    have hsame : a.step c now .heartbeat = (a, c) := by simp [step, stepHeartbeat, hnone]
    rw [hsame]
    exact ⟨rfl, .inr ⟨rfl, by simp⟩⟩
  | loop k =>
    refine ⟨a.watched_step_loop c now k, ?_⟩
    rcases a.stepsLeft_step_loop c now hstop k with hless | ⟨hsame, hother⟩
    · exact .inl hless
    · refine .inr ⟨hsame, fun j hj hwatched => ?_⟩
      cases hj
      simp [stepsLeft, hwatched, hother.resolve_left (not_not_intro hwatched)]

/-- A loop that takes steps is ready sooner or later. -/
theorem exists_loop_ready {k : ℕ} (hwatched : a.watched = some k) (h : a.stepsLeft ≠ 0) :
    ∃ now, a.wait now (.loop k) = .ready := by
  cases hl : a.loops.lookup k with
  | none => exact absurd (by simp [stepsLeft, hwatched, hl]) h
  | some l =>
    obtain ⟨now, hready⟩ := l.exists_ready a.detection
    exact ⟨now, by simpa [wait, hl] using hready⟩

/-- Without a heartbeat no beat comes late. -/
theorem lateBeat_of_heartbeat (hnone : a.heartbeat = none) : a.lateBeat c now = (a, c) := by
  unfold lateBeat
  rw [hnone]

end Agent

end Tidemark
