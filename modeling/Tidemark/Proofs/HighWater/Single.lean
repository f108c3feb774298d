import Tidemark.Proofs.HighWater.Record

/-!
# One loop at a time

An agent that is started once never has two loops at a time: the heartbeat replaces a loop only when
the one that it looks after has ended, and that is every loop there is (`Agent.Sound`). So nobody
else records the mark while a loop is in the middle of a pass, and all that an agent does is an
advance. Whoever starts the agent makes the first pass while there is no loop at all
(`AgentCall.Sound`).
-/

namespace Tidemark

open LogView

variable {L : Type} [EventLog L] [DetectedLog L]

namespace Agent

/-- The agent does nothing by itself. -/
structure Idle (a : Agent) : Prop where
  loops : a.loops = []
  heartbeat : a.heartbeat = none

/-- There is one loop at most, which the agent looks after while it has a heartbeat, and which is
right about the mark on record. -/
structure Sound (row : Position) (a : Agent) : Prop where
  single : a.loops.length ≤ 1
  watched : a.heartbeat.isSome → ∀ x ∈ a.loops, a.watched = some x.1
  informed : ∀ x ∈ a.loops, x.2.stage.Informed row

/-- An agent without loops is sound. -/
theorem sound_of_loops (a : Agent) (h : a.loops = []) (row : Position) : a.Sound row := by
  constructor <;> simp [h]

/-- An agent with the loops of a sound one, and with a heartbeat only if the sound one has it and
looks after the same loop, is sound. -/
theorem Sound.of_loops {row : Position} {a a' : Agent} (h : a.Sound row)
    (hloops : a'.loops = a.loops)
    (hheartbeat : a'.heartbeat.isSome → a.heartbeat.isSome ∧ a'.watched = a.watched) :
    a'.Sound row := by
  refine ⟨hloops ▸ h.single, fun hsome x hx => ?_, hloops ▸ h.informed⟩
  obtain ⟨hsome', hwatched⟩ := hheartbeat hsome
  rw [hwatched]
  exact h.watched hsome' x (hloops ▸ hx)

/-- Where an agent looks after every loop there is, and the loop that it looks after has ended, there
is no loop. -/
theorem loops_of_isDead {a : Agent} (hwatched : ∀ x ∈ a.loops, a.watched = some x.1)
    (hdead : a.isDead = true) : a.loops = [] := by
  rw [List.eq_nil_iff_forall_not_mem]
  intro x hx
  simp only [isDead, hwatched x hx, Option.any_some, isAlive, Bool.not_eq_true',
    List.any_eq_false, beq_iff_eq] at hdead
  exact hdead x hx rfl

/-- Where there is one loop at most, the loop that takes a step is the only one. -/
theorem loops_of_lookup {a : Agent} (hsingle : a.loops.length ≤ 1) {k : Nat} {l : DetectionLoop}
    (hl : a.loops.lookup k = some l) : a.loops = [(k, l)] := by
  match hloops : a.loops with
  | [] => simp [hloops] at hl
  | [(j, l')] =>
    rw [hloops, List.lookup_cons] at hl
    split at hl
    · next hj => rw [beq_iff_eq.mp hj, Option.some.inj hl]
    · cases hl
  | x :: y :: rest =>
    rw [hloops] at hsingle
    simp at hsingle

/-- An agent with a single loop, which it looks after if it has a heartbeat, is sound. -/
theorem sound_of_single {a : Agent} {row : Position} (k : Nat) (l : DetectionLoop)
    (hloops : a.loops = [(k, l)]) (hwatched : a.heartbeat.isSome → a.watched = some k)
    (hinformed : l.stage.Informed row) : a.Sound row :=
  ⟨by simp [hloops], by simpa [hloops] using hwatched, by simpa [hloops] using hinformed⟩

/-- A part of a step of an agent is an advance and keeps the agent sound. -/
structure Goes (c : Commons L) (out : Agent × Commons L) : Prop where
  advance : Advance c out.2
  sound : out.1.Sound (highWater out.2.log)

variable (a : Agent) (c : Commons L) (now : Moment)

/-- A step of a loop goes on with a sound agent. -/
theorem step_loop_goes (h : a.Sound (highWater c.log)) (hrow : 0 ≤ highWater c.log) (k : Nat) :
    Goes c (a.step c now (.loop k)) := by
  simp only [step]
  split
  · exact ⟨.refl c, h⟩
  · next l hl =>
    have hloops := loops_of_lookup h.single hl
    have hinformed : l.stage.Informed (highWater c.log) := h.informed (k, l) (by simp [hloops])
    obtain ⟨hadvance, hnext⟩ := l.step_goes a.detection c now hinformed hrow
    refine ⟨hadvance, ?_⟩
    -- The loop has ended, or is still the only one.
    cases hstep : (l.step a.detection c now).1 with
    | none => exact sound_of_loops _ (by simp [setLoop, hloops]) _
    | some l' =>
      refine sound_of_single k l' (by simp [setLoop, hloops]) (fun hsome => ?_) (hnext l' hstep)
      exact h.watched hsome (k, l) (by simp [hloops])

/-- An agent that replaces a dead loop goes on sound. -/
theorem revive_goes (h : a.Sound (highWater c.log)) (hheartbeat : a.heartbeat.isSome)
    (seen : Nat) : Goes c (a.revive c now seen) := by
  unfold revive
  split_ifs with hdead
  · have hloops := loops_of_isDead (h.watched hheartbeat) hdead
    refine ⟨.measure c _, sound_of_single a.loopCount ⟨.bootstrapping (.begin_ c now none), seen⟩
      (by simp [addLoop, hloops]) (fun _ => rfl) trivial⟩
  · exact ⟨.refl c, h⟩

/-- A beat of the heartbeat goes on with a sound agent. -/
theorem stepHeartbeat_goes (h : a.Sound (highWater c.log)) : Goes c (a.stepHeartbeat c now) := by
  unfold stepHeartbeat
  split
  · exact ⟨.refl c, h⟩
  · next beat hbeat =>
    -- Nothing matters of the heartbeat but that there is one.
    have hbeats (beat' : Heartbeat) :
        ({ a with heartbeat := some beat' } : Agent).Sound (highWater c.log) :=
      h.of_loops rfl fun _ => ⟨by simp [hbeat], rfl⟩
    dsimp only
    split
    · split_ifs
      · exact ⟨.refl c, hbeats _⟩
      · exact ⟨.refl c, hbeats _⟩
    · split_ifs
      · exact ⟨.refl c, hbeats _⟩
      · exact ⟨.refl c, hbeats _⟩
      · exact ⟨.refl c, hbeats _⟩
      · exact revive_goes _ c now (hbeats _) rfl beat.seen

/-- A step of a sound agent is an advance and keeps the agent sound. -/
theorem step_goes (h : a.Sound (highWater c.log)) (hrow : 0 ≤ highWater c.log)
    (task : AgentTask) : Goes c (a.step c now task) := by
  cases task with
  | loop k => exact a.step_loop_goes c now h hrow k
  | heartbeat => exact a.stepHeartbeat_goes c now h

omit [DetectedLog L] in
/-- An agent that does nothing by itself takes no steps. -/
theorem Idle.step_eq {a : Agent} (h : a.Idle) (c : Commons L) (now : Moment) (task : AgentTask) :
    a.step c now task = (a, c) := by
  cases task with
  | loop k => simp [step, h.loops]
  | heartbeat => simp [step, stepHeartbeat, h.heartbeat]

omit [DetectedLog L] in
/-- An agent does not get a heartbeat by itself. -/
theorem step_heartbeat {a : Agent} (h : a.heartbeat = none) (c : Commons L) (now : Moment)
    (task : AgentTask) : (a.step c now task).1.heartbeat = none := by
  cases task with
  | loop k =>
    simp only [step]
    split <;> exact h
  | heartbeat => simp [step, stepHeartbeat, h]

/-- An idle agent that is launched after a first pass is sound. -/
theorem launch_goes (h : a.Idle) {found : Statistics}
    (hfound : found.currentMark ≤ highWater c.log) :
    Goes c (a.launch c found).2 := by
  have hadvance := a.detection.publish_advances c hfound
  unfold launch
  split
  · next heq =>
    rw [heq] at hadvance
    refine ⟨hadvance, sound_of_loops _ ?_ _⟩
    exact h.loops
  · next d c' heq =>
    rw [heq] at hadvance
    have hlaunched {a' : Agent} (hloops : a'.loops = a.loops ++ [(a.loopCount,
        ⟨.opening found, d.stopping.version⟩)]) (hwatched : a'.watched = some a.loopCount) :
        a'.Sound (highWater c'.log) :=
      sound_of_single a.loopCount ⟨.opening found, d.stopping.version⟩ (by simp [hloops, h.loops])
        (fun _ => hwatched) trivial
    dsimp only
    split
    · exact ⟨hadvance, hlaunched rfl rfl⟩
    · exact ⟨hadvance.trans (.measure c' (·.setAgentRunning true)), hlaunched rfl rfl⟩

end Agent

/-! ## Starting and stopping -/

namespace AgentCall

/-- What holds while someone starts or stops an agent. -/
def Sound (row : Position) (a : Agent) : AgentCall → Prop
  | .starting scan => a.Idle ∧ scan.pass.Informed row
  | .endingLoop => a.heartbeat = none
  | _ => True

variable {call : AgentCall} {a : Agent} {c : Commons L}

/-- A step of a sound call is an advance and keeps the agent and the call sound. -/
theorem step_goes (hcall : call.Sound (highWater c.log) a) (ha : a.Sound (highWater c.log))
    (hrow : 0 ≤ highWater c.log) (now : Moment) :
    Agent.Goes c (call.step a c now).2 ∧
      (call.step a c now).1.Sound (highWater (call.step a c now).2.2.log)
        (call.step a c now).2.1 := by
  cases call with
  | starting scan =>
    obtain ⟨hidle, hinformed⟩ := hcall
    obtain ⟨hadvance, hnext⟩ := scan.step_informed hinformed hrow now
    have hidling (row : Position) : a.Sound row := Agent.sound_of_loops a hidle.loops row
    simp only [step]
    split
    · next heq =>
      rw [heq] at hadvance hnext
      exact ⟨⟨hadvance, hidling _⟩, hidle, hnext⟩
    · next heq =>
      rw [heq] at hadvance
      exact ⟨⟨hadvance, hidling _⟩, trivial⟩
    · next found c' heq =>
      rw [heq] at hadvance hnext
      obtain ⟨hlaunched, hsound⟩ := a.launch_goes c' hidle hnext
      exact ⟨⟨hadvance.trans hlaunched, hsound⟩, trivial⟩
  | started outcome => exact ⟨⟨.refl c, ha⟩, trivial⟩
  | endingHeartbeat => exact ⟨⟨.refl c, ha.of_loops rfl nofun⟩, rfl⟩
  | endingLoop =>
    have hnone : a.heartbeat = none := hcall
    have hsound : ({ a with watched := none } : Agent).Sound (highWater c.log) :=
      ha.of_loops rfl fun hsome => by simp [hnone] at hsome
    have hmeasured := Advance.measure c (·.setAgentRunning false)
    exact ⟨⟨hmeasured, hsound⟩, trivial⟩
  | stopped => exact ⟨⟨.refl c, ha⟩, trivial⟩

/-- A call stays sound as the agent takes a step. -/
theorem Sound.agent_step (hcall : call.Sound (highWater c.log) a) (now : Moment)
    (task : AgentTask) :
    call.Sound (highWater (a.step c now task).2.log) (a.step c now task).1 := by
  cases call with
  | starting scan =>
    rw [hcall.1.step_eq]
    exact hcall
  | endingLoop => exact Agent.step_heartbeat hcall c now task
  | _ => trivial

end AgentCall

end Tidemark
