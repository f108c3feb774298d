import Tidemark.Proofs.HighWater.Signal

/-!
# Started again and again

An agent that is started and stopped again and again has one loop at a time, and none once it has
stopped, if the period of its heartbeat can be computed: then a start that sets off a loop also sets
off the heartbeat by which the next start knows that it has to refuse
(`AgentCourse.orderly_iff`). Otherwise such a start crashes with its loop running, the next start
adds another loop, and stopping the agent waits for that one only
(`AgentCourse.exists_second_loop`).
-/

namespace Tidemark

/-! ## Agents -/

namespace Agent

/-- There is one loop at most, and it is the one that the agent looks after. -/
structure Sole (a : Agent) : Prop where
  single : a.loops.length ≤ 1
  watched : ∀ x ∈ a.loops, a.watched = some x.1

/-- An agent without loops has one at most. -/
theorem sole_of_loops {a : Agent} (h : a.loops = []) : a.Sole := by
  constructor <;> simp [h]

/-- A loop that is added to none is the only one. -/
theorem sole_addLoop {a : Agent} (h : a.loops = []) (stage : LoopStage) (seen : Nat) :
    (a.addLoop stage seen).Sole := by
  constructor <;> simp [addLoop, h]

/-- A beat leaves one loop at most. -/
theorem Beaten.sole {L : Type} {a : Agent} {c : Commons L} {out : Agent × Commons L}
    (h : Beaten a c out) (ha : a.Sole) : out.1.Sole := by
  cases h with
  | nothing => exact ha
  | noted => exact ⟨ha.single, ha.watched⟩
  | replaced h hdead beat scan seen f =>
    have hloops : a.loops = [] := loops_of_isDead ha.watched hdead
    exact sole_addLoop (a := { a with heartbeat := some beat, restarts := a.restarts + 1 }) hloops
      (.bootstrapping scan) seen

/-- A beat does not end the heartbeat for good. -/
theorem Beaten.isSome_heartbeat {L : Type} {a : Agent} {c : Commons L} {out : Agent × Commons L}
    (h : Beaten a c out) : out.1.heartbeat.isSome = a.heartbeat.isSome := by
  cases h with
  | nothing => rfl
  | noted h beat => exact h.symm
  | replaced h hdead beat scan seen f => exact h.symm

/-- Where there is no heartbeat, there are no beats. -/
theorem Beaten.eq_of_idle {L : Type} {a : Agent} {c : Commons L} {out : Agent × Commons L}
    (h : Beaten a c out) (hidle : a.Idle) : out = (a, c) := by
  have hnot : ¬ a.heartbeat.isSome := by simp [hidle.heartbeat]
  cases h with
  | nothing => rfl
  | noted h => exact absurd h hnot
  | replaced h => exact absurd h hnot

/-- With a beat, a loop is replaced or none is added. -/
theorem Beaten.restarts {L : Type} {a : Agent} {c : Commons L} {out : Agent × Commons L}
    (h : Beaten a c out) :
    out.1.restarts = a.restarts + if a.loops.length < out.1.loops.length then 1 else 0 := by
  cases h <;> simp [addLoop]

variable {L : Type} [EventLog L] (c : Commons L) (now : Moment)

/-- A step of a task leaves one loop at most. -/
theorem Sole.step {a : Agent} (h : a.Sole) (task : AgentTask) : (a.step c now task).1.Sole := by
  cases task with
  | heartbeat => exact (a.beaten_stepHeartbeat c now).sole h
  | loop k =>
    simp only [Agent.step]
    split
    · exact h
    · next l hl =>
      have hloops := loops_of_lookup h.single hl
      have hwatched : a.watched = some k := h.watched (k, l) (by simp [hloops])
      cases hstep : (l.step a.detection c now).1 with
      | none => exact sole_of_loops (by simp [setLoop, hloops])
      | some l' => constructor <;> simp [setLoop, hloops, hwatched]

/-- A step of a task does not end the heartbeat for good. -/
theorem isSome_heartbeat_step (a : Agent) (task : AgentTask) :
    (a.step c now task).1.heartbeat.isSome = a.heartbeat.isSome := by
  cases task with
  | heartbeat => exact (a.beaten_stepHeartbeat c now).isSome_heartbeat
  | loop k =>
    simp only [step]
    split <;> rfl

/-- A loop replaces none. -/
theorem restarts_step_loop (a : Agent) (k : Nat) :
    (a.step c now (.loop k)).1.restarts = a.restarts := by
  simp only [step]
  split <;> rfl

end Agent

/-! ## Calls -/

section Calls

/-- What holds of an agent by what was last asked of it. -/
def AgentCall.Settled (a : Agent) : AgentCall → Prop
  | .starting _ | .stopped => a.Idle
  | .started (.ok _) => a.heartbeat.isSome
  | .started (.error _) => a.heartbeat = none → a.loops = []
  | .endingHeartbeat => True
  | .endingLoop => a.heartbeat = none

variable {a a' : Agent} {call : AgentCall}

/-- Where the agent goes on with its heartbeat, and goes on with nothing else, the same holds. -/
theorem AgentCall.Settled.of_heartbeat (h : call.Settled a)
    (hsome : a'.heartbeat.isSome = a.heartbeat.isSome) (hsame : a.Idle → a' = a) :
    call.Settled a' := by
  have hnone : a'.heartbeat = none ↔ a.heartbeat = none := by
    rw [← Option.not_isSome_iff_eq_none, ← Option.not_isSome_iff_eq_none, hsome]
  cases call with
  | starting scan => exact hsame h ▸ h
  | started outcome =>
    cases outcome with
    | ok found => exact hsome.trans h
    | error fault =>
      intro hnone'
      have hidle : a.Idle := ⟨h (hnone.mp hnone'), hnone.mp hnone'⟩
      rw [hsame hidle]
      exact hidle.loops
  | endingHeartbeat => trivial
  | endingLoop => exact hnone.mpr h
  | stopped => exact hsame h ▸ h

/-- Who is done with starting or stopping an agent without a heartbeat leaves it idle. -/
theorem AgentCall.Settled.idle (h : call.Settled a) (hover : call.isOver = true)
    (hnone : a.heartbeat = none) : a.Idle := by
  cases call with
  | started outcome =>
    cases outcome with
    | ok found =>
      have hsome : a.heartbeat.isSome := h
      simp [hnone] at hsome
    | error fault => exact ⟨h hnone, hnone⟩
  | stopped => exact h
  | _ => cases hover

end Calls

/-! ## States -/

variable {L : Type} [EventLog L]

omit [EventLog L] in
/-- Setting off the loop and the heartbeat of an idle agent, whose period can be computed, leaves
one loop at most. -/
theorem Agent.Idle.launch {a : Agent} (h : a.Idle) {period : Duration}
    (hperiod : a.detection.config.healthCheck = .ok period) (c : Commons L) (found : Statistics) :
    (a.launch c found).2.1.Sole ∧ (AgentCall.started (a.launch c found).1).Settled
      (a.launch c found).2.1 := by
  have hsame := a.detection.publish_same c found
  unfold Agent.launch
  split
  · exact ⟨sole_of_loops h.loops, fun _ => h.loops⟩
  · next d c' heq =>
    rw [heq] at hsame
    have hd : d.config.healthCheck = .ok period := by rw [hsame.config, hperiod]
    simp only [hd]
    obtain ⟨hsingle, hwatched⟩ := sole_addLoop (a := { a with detection := d }) h.loops
      (.opening found) d.stopping.version
    exact ⟨⟨hsingle, hwatched⟩, rfl⟩

omit [EventLog L] in
/-- Where the period of the heartbeat cannot be computed, a loop is set off and no heartbeat. -/
theorem Agent.launch_of_error {a : Agent} {cause : Crash}
    (h : a.detection.config.healthCheck = .error cause) (c : Commons L) (found : Statistics) :
    (a.launch c found).2.1.heartbeat = a.heartbeat ∧
      ((a.detection.publish c found).1 = .ok () →
        (a.launch c found).2.1.loops.length = a.loops.length + 1) := by
  have hsame := a.detection.publish_same c found
  unfold Agent.launch
  split
  · next heq => simp [heq]
  · next d c' heq =>
    rw [heq] at hsame
    have hd : d.config.healthCheck = .error cause := by rw [hsame.config, h]
    simp only [hd]
    exact ⟨rfl, fun _ => by simp [addLoop]⟩

omit [EventLog L] in
/-- Setting off the loop and the heartbeat changes no setting and replaces no loop. -/
theorem Agent.launch_frame (a : Agent) (c : Commons L) (found : Statistics) :
    (a.launch c found).2.1.detection.config = a.detection.config ∧
      (a.launch c found).2.1.restarts = a.restarts := by
  have hconfig := (a.detection.publish_same c found).config
  unfold Agent.launch
  split
  · next heq =>
    rw [heq] at hconfig
    exact ⟨hconfig, rfl⟩
  · next heq =>
    rw [heq] at hconfig
    dsimp only
    split <;> exact ⟨hconfig, rfl⟩

namespace AgentState

/-- There is one loop at most, and what was last asked of the agent is settled. -/
structure Sound (s : AgentState L) : Prop where
  sole : s.agent.Sole
  settled : s.call.Settled s.agent

variable {s : AgentState L}

omit [EventLog L] in
/-- Whoever starts the agent makes the first scan while there is no loop. -/
theorem Sound.running_le (h : s.Sound) : s.running ≤ 1 := by
  have hsingle := h.sole.single
  unfold running
  cases hcall : s.call with
  | starting scan =>
    have hidle := h.settled
    rw [hcall] at hidle
    simp [AgentCall.isStarting, hidle.loops]
  | _ => simpa [AgentCall.isStarting] using hsingle

/-- A move leaves one loop at most, and what was last asked of the agent settled. -/
theorem Sound.perform (h : s.Sound) {period : Duration}
    (hperiod : s.agent.detection.config.healthCheck = .ok period) (m : AgentMove L) :
    (s.perform m).Sound := by
  cases m with
  | task now task =>
    exact ⟨h.sole.step s.commons now task,
      h.settled.of_heartbeat (s.agent.isSome_heartbeat_step s.commons now task) fun hidle =>
        congrArg Prod.fst (hidle.step_eq s.commons now task)⟩
  | late now =>
    have hbeaten := s.agent.beaten_lateBeat s.commons now
    exact ⟨hbeaten.sole h.sole, h.settled.of_heartbeat hbeaten.isSome_heartbeat fun hidle =>
      congrArg Prod.fst (hbeaten.eq_of_idle hidle)⟩
  | start now =>
    simp only [AgentState.perform, Agent.start]
    split_ifs with hover hrunning
    · -- The agent has a heartbeat, and refuses.
      refine ⟨h.sole, fun hnone => ?_⟩
      rw [hnone] at hrunning
      cases hrunning
    · have hidle := h.settled.idle hover (Option.not_isSome_iff_eq_none.mp hrunning)
      exact ⟨Agent.sole_of_loops hidle.loops, hidle.loops, hidle.heartbeat⟩
    · exact h
  | stop =>
    simp only [AgentState.perform, Agent.stop]
    split_ifs
    · exact ⟨⟨h.sole.single, h.sole.watched⟩, trivial⟩
    · exact h
  | call now =>
    simp only [AgentState.perform]
    split_ifs with hready
    · cases hcall : s.call with
      | starting scan =>
        have hidle : s.agent.Idle := by
          have hsettled := h.settled
          rwa [hcall] at hsettled
        simp only [AgentCall.step]
        split
        · exact ⟨h.sole, hidle⟩
        · exact ⟨h.sole, fun _ => hidle.loops⟩
        · next found c' _ =>
          obtain ⟨hsole, hsettled⟩ := hidle.launch hperiod c' found
          exact ⟨hsole, hsettled⟩
      | endingHeartbeat => exact ⟨⟨h.sole.single, h.sole.watched⟩, rfl⟩
      | endingLoop =>
        -- The loop that the agent looks after has ended, so there is none.
        have hnone : s.agent.heartbeat = none := by
          have hsettled := h.settled
          rwa [hcall] at hsettled
        have hdead : s.agent.isDead = true := by
          simpa [hcall, AgentCall.wait, Wait.for, Agent.isDead] using hready
        have hloops := Agent.loops_of_isDead h.sole.watched hdead
        exact ⟨Agent.sole_of_loops hloops, hloops, hnone⟩
      | started outcome => simp [hcall, AgentCall.wait] at hready
      | stopped => simp [hcall, AgentCall.wait] at hready
    · exact h
  | elsewhere f => exact ⟨h.sole, h.settled⟩

/-- A move that is not one of a task changes no setting and replaces no loop. -/
theorem perform_frame (s : AgentState L) (m : AgentMove L) (h : m.isTask = false) :
    (s.perform m).agent.detection.config = s.agent.detection.config ∧
      (s.perform m).agent.restarts = s.agent.restarts := by
  cases m with
  | task now task => cases h
  | late now => cases h
  | start now =>
    simp only [perform, Agent.start]
    split_ifs <;> exact ⟨rfl, rfl⟩
  | stop =>
    simp only [perform, Agent.stop]
    split_ifs <;> exact ⟨rfl, rfl⟩
  | call now =>
    simp only [perform]
    split_ifs
    · cases hcall : s.call with
      | starting scan =>
        simp only [AgentCall.step]
        split
        · exact ⟨rfl, rfl⟩
        · exact ⟨rfl, rfl⟩
        · next found c' _ => exact s.agent.launch_frame c' found
      | _ => exact ⟨rfl, rfl⟩
    · exact ⟨rfl, rfl⟩
  | elsewhere f => exact ⟨rfl, rfl⟩

/-- No move changes the settings. -/
theorem config_perform (s : AgentState L) (m : AgentMove L) :
    (s.perform m).agent.detection.config = s.agent.detection.config := by
  cases m with
  | task now task => exact (s.agent.step_published s.commons now task).1.config
  | late now => exact congrArg _ (s.agent.beaten_lateBeat s.commons now).unheard.detection
  | _ => exact (s.perform_frame _ rfl).1

/-- A loop is replaced exactly by a move of the heartbeat that adds one. -/
theorem restarts_perform (s : AgentState L) (m : AgentMove L) :
    (s.perform m).agent.restarts = s.agent.restarts +
      if m.isBeat = true ∧ s.agent.loops.length < (s.perform m).agent.loops.length then 1 else 0 := by
  cases m with
  | task now task =>
    cases task with
    | heartbeat =>
      simpa [perform, AgentMove.isBeat, Agent.step] using
        (s.agent.beaten_stepHeartbeat s.commons now).restarts
    | loop k =>
      have hrestarts := s.agent.restarts_step_loop s.commons now k
      simpa [perform, AgentMove.isBeat] using hrestarts
  | late now =>
    simpa [perform, AgentMove.isBeat] using (s.agent.beaten_lateBeat s.commons now).restarts
  | _ => simpa [AgentMove.isBeat] using (s.perform_frame _ rfl).2

/-- When the first scan has found something, the loop and the heartbeat are set off. -/
theorem perform_of_found {scan : Scan} {now : Moment} {found : Statistics} {c : Commons L}
    (hcall : s.call = .starting scan) (hwait : scan.wait now = .ready)
    (hscan : scan.step s.commons now = (.ended (.ok found), c)) :
    s.perform (.call now) = ⟨(s.agent.launch c found).2.1, (s.agent.launch c found).2.2,
      .started (s.agent.launch c found).1⟩ := by
  simp only [perform, hcall, AgentCall.wait, hwait, AgentCall.step, hscan, if_true]

/-- Whoever starts an agent without a heartbeat makes the first scan beside the loops there are. -/
theorem running_start (hover : s.call.isOver = true) (hnone : s.agent.heartbeat = none)
    (now : Moment) : (s.perform (.start now)).running = s.agent.loops.length + 1 := by
  simp [perform, hover, Agent.start, hnone, running, AgentCall.isStarting]

/-- The agent has a heartbeat, and whoever started it is done with that. -/
structure Started (s : AgentState L) : Prop where
  heartbeat : s.agent.heartbeat.isSome
  call : ∃ outcome, s.call = .started outcome

/-- The agent stays started until someone stops it. -/
theorem Started.perform (h : s.Started) (m : AgentMove L) (hm : m.isStop = false) :
    (s.perform m).Started := by
  obtain ⟨hheartbeat, outcome, hcall⟩ := h
  cases m with
  | task now task =>
    exact ⟨(s.agent.isSome_heartbeat_step s.commons now task).trans hheartbeat, outcome, hcall⟩
  | late now =>
    have hsome := (s.agent.beaten_lateBeat s.commons now).isSome_heartbeat
    exact ⟨hsome.trans hheartbeat, outcome, hcall⟩
  | start now =>
    simp only [AgentState.perform, hcall, AgentCall.isOver, Agent.start, hheartbeat, if_true]
    exact ⟨hheartbeat, _, rfl⟩
  | stop => cases hm
  | call now =>
    have hwait : s.call.wait s.agent now ≠ .ready := by simp [hcall, AgentCall.wait]
    simp only [AgentState.perform, if_neg hwait]
    exact ⟨hheartbeat, outcome, hcall⟩
  | elsewhere f => exact ⟨hheartbeat, outcome, hcall⟩

/-- Neither is the agent at work, nor does anyone start it. -/
structure Resting (s : AgentState L) : Prop where
  idle : s.agent.Idle
  call : s.call.isStarting = false

/-- An agent that rests does so until it is started. It publishes nothing and leaves the log
alone. -/
theorem Resting.perform (h : s.Resting) (m : AgentMove L) :
    (m.isStart = false → (s.perform m).Resting) ∧ (m.isOwn = true →
      (s.perform m).commons.tracker = s.commons.tracker ∧
        (s.perform m).commons.log = s.commons.log) := by
  obtain ⟨hidle, hcall⟩ := h
  cases m with
  | task now task =>
    have hsame : s.perform (.task now task) = s := by simp only [AgentState.perform, hidle.step_eq]
    rw [hsame]
    exact ⟨fun _ => ⟨hidle, hcall⟩, fun _ => ⟨rfl, rfl⟩⟩
  | late now =>
    have hsame : s.perform (.late now) = s := by
      simp only [AgentState.perform, (s.agent.beaten_lateBeat s.commons now).eq_of_idle hidle]
    rw [hsame]
    exact ⟨fun _ => ⟨hidle, hcall⟩, fun _ => ⟨rfl, rfl⟩⟩
  | start now =>
    refine ⟨fun hstart => (by cases hstart), fun _ => ?_⟩
    simp only [AgentState.perform]
    split_ifs <;> exact ⟨rfl, rfl⟩
  | stop =>
    simp only [AgentState.perform]
    split_ifs
    · exact ⟨fun _ => ⟨⟨hidle.loops, hidle.heartbeat⟩, rfl⟩, fun _ => ⟨rfl, rfl⟩⟩
    · exact ⟨fun _ => ⟨hidle, hcall⟩, fun _ => ⟨rfl, rfl⟩⟩
  | call now =>
    simp only [AgentState.perform]
    split_ifs
    · cases heq : s.call with
      | starting scan => simp [heq, AgentCall.isStarting] at hcall
      | endingHeartbeat => exact ⟨fun _ => ⟨⟨hidle.loops, rfl⟩, rfl⟩, fun _ => ⟨rfl, rfl⟩⟩
      | endingLoop =>
        exact ⟨fun _ => ⟨⟨hidle.loops, hidle.heartbeat⟩, rfl⟩, fun _ => ⟨rfl, rfl⟩⟩
      | started outcome => exact ⟨fun _ => ⟨hidle, rfl⟩, fun _ => ⟨rfl, rfl⟩⟩
      | stopped => exact ⟨fun _ => ⟨hidle, rfl⟩, fun _ => ⟨rfl, rfl⟩⟩
    · exact ⟨fun _ => ⟨hidle, hcall⟩, fun _ => ⟨rfl, rfl⟩⟩
  | elsewhere f => exact ⟨fun _ => ⟨hidle, hcall⟩, fun hown => (by cases hown)⟩

end AgentState

/-! ## Courses -/

namespace AgentCourse

variable (x : AgentCourse L)

/-- A move of the heartbeat sets off a loop. -/
def Revives (n : ℕ) : Prop :=
  (x.move n).isBeat = true ∧ (x.state n).agent.loops.length < (x.state (n + 1)).agent.loops.length

instance : DecidablePred x.Revives := fun _ => inferInstanceAs (Decidable (_ ∧ _))

/-- The agent was started, and nobody has begun to stop it since. -/
def Started (n : ℕ) : Prop :=
  ∃ i ≤ n, (∃ found, (x.state i).call = .started (.ok found)) ∧
    ∀ k, i ≤ k → k < n → (x.move k).isStop = false

/-- Someone has stopped the agent, and nobody has begun to start it since. -/
def Stopped (n : ℕ) : Prop :=
  ∃ i ≤ n, (x.state i).call.hasStopped = true ∧ ∀ k, i ≤ k → k < n → (x.move k).isStart = false

/-- What whoever starts and stops the agent may rely on. -/
structure Orderly : Prop where
  /-- There is one loop at most. -/
  single : ∀ n, (x.state n).running ≤ 1
  /-- The agent counts the loops that its heartbeat has set off. -/
  restarts : ∀ n, (x.state n).agent.restarts = Nat.count x.Revives n
  /-- An agent that was started refuses to be started, and nothing else happens. -/
  refused : ∀ n now, x.Started n → x.move n = .start now → x.state (n + 1) =
    { x.state n with call := .started (.error (.error (.invalidState "Idle" "Running"))) }
  /-- An agent that was stopped publishes and records nothing. -/
  quiet : ∀ n, x.Stopped n → (x.move n).isOwn = true →
    (x.state (n + 1)).commons.tracker = (x.state n).commons.tracker ∧
      (x.state (n + 1)).commons.log = (x.state n).commons.log

variable {x}

/-- The settings stay the same. -/
theorem config_state (n : ℕ) : (x.state n).agent.detection.config = x.config := by
  induction n with
  | zero => rfl
  | succ n ih => exact ((x.state n).config_perform (x.move n)).trans ih

/-- If the period of the heartbeat can be computed, there is one loop at most, and what was last
asked of the agent is settled. -/
theorem sound {period : Duration} (hperiod : x.config.healthCheck = .ok period) (n : ℕ) :
    (x.state n).Sound := by
  induction n with
  | zero => exact ⟨Agent.sole_of_loops rfl, rfl, rfl⟩
  | succ n ih => exact ih.perform (by rw [config_state, hperiod]) (x.move n)

/-- The agent counts the loops that its heartbeat has set off, whatever its settings are. -/
theorem restarts_eq (n : ℕ) : (x.state n).agent.restarts = Nat.count x.Revives n := by
  induction n with
  | zero => rfl
  | succ n ih =>
    rw [Nat.count_succ, ← ih]
    exact (x.state n).restarts_perform (x.move n)

/-- An agent that was started and not stopped has a heartbeat. -/
theorem Started.state (hsound : ∀ n, (x.state n).Sound) {n : ℕ} (h : x.Started n) :
    (x.state n).Started := by
  obtain ⟨i, hin, ⟨found, hcall⟩, hstill⟩ := h
  induction n, hin using Nat.le_induction with
  | base =>
    have hsettled := (hsound i).settled
    rw [hcall] at hsettled
    exact ⟨hsettled, _, hcall⟩
  | succ n hin ih =>
    have hstarted := ih fun k hik hkn => hstill k hik (by omega)
    exact hstarted.perform (x.move n) (hstill n hin (by omega))

/-- An agent that was stopped and not started rests. -/
theorem Stopped.state (hsound : ∀ n, (x.state n).Sound) {n : ℕ} (h : x.Stopped n) :
    (x.state n).Resting := by
  obtain ⟨i, hin, hstopped, hstill⟩ := h
  induction n, hin using Nat.le_induction with
  | base =>
    have hsettled := (hsound i).settled
    cases hcall : (x.state i).call with
    | stopped =>
      rw [hcall] at hsettled
      exact ⟨hsettled, by rw [hcall]; rfl⟩
    | _ => simp [hcall, AgentCall.hasStopped] at hstopped
  | succ n hin ih =>
    have hresting := ih fun k hik hkn => hstill k hik (by omega)
    exact (hresting.perform (x.move n)).1 (hstill n hin (by omega))

/-- If the period of the heartbeat can be computed, everything is in order. -/
theorem orderly {period : Duration} (hperiod : x.config.healthCheck = .ok period) : x.Orderly := by
  have hsound := sound hperiod
  refine ⟨fun n => (hsound n).running_le, restarts_eq, fun n now h hnow => ?_, fun n h hown => ?_⟩
  · obtain ⟨hheartbeat, outcome, hcall⟩ := h.state hsound
    rw [state, hnow]
    simp only [AgentState.perform, hcall, AgentCall.isOver, Agent.start, hheartbeat, if_true]
  · exact ((h.state hsound).perform (x.move n)).2 hown

/-- Whoever starts and stops agents may rely on them exactly if the period of the heartbeat can be
computed. -/
theorem orderly_iff (config : Config.Polling) :
    (∀ (L : Type) [EventLog L] (x : AgentCourse L), x.config = config → x.Orderly) ↔
      ∃ period, config.healthCheck = .ok period := by
  constructor
  · intro horderly
    cases hcheck : config.healthCheck with
    | ok period => exact ⟨period, rfl⟩
    | error cause =>
      -- The first start crashes after it has set off a loop, and the second one does not refuse.
      let c : Commons MemoryLog := { log := {}, origin := ⟨0, false⟩ }
      let a : Agent := { detection := { config := config, stopping := ⟨false, 1⟩ } }
      let x : AgentCourse MemoryLog := .ofMoves config c [.start 0, .call 0, .start 0]
      obtain ⟨found, c', hscan, hpublish⟩ : ∃ found c', (Scan.begin_ c 0 none).step c 0 =
          (.ended (.ok found), c') ∧ ∀ d : Detection, (d.publish c' found).1 = .ok () :=
        ⟨_, _, rfl, fun d => rfl⟩
      obtain ⟨hheartbeat, hloops⟩ := a.launch_of_error hcheck c' found
      have hlaunched : x.state 2 =
          ⟨(a.launch c' found).2.1, (a.launch c' found).2.2, .started (a.launch c' found).1⟩ :=
        AgentState.perform_of_found rfl rfl hscan
      have hrunning : (x.state 3).running = 2 := by
        have hover : (x.state 2).call.isOver = true := by rw [hlaunched]; rfl
        have hnone : (x.state 2).agent.heartbeat = none := by rw [hlaunched, hheartbeat]
        have hloop : (x.state 2).agent.loops.length = 1 := by
          rw [hlaunched, hloops (hpublish _)]
          rfl
        exact (AgentState.running_start hover hnone 0).trans (by rw [hloop])
      have hsingle := (horderly MemoryLog x rfl).single 3
      rw [hrunning] at hsingle
      omega
  · rintro ⟨period, hperiod⟩ L _ x rfl
    exact orderly hperiod

/-! ## Rehearsals -/

/-- The loop of an agent dies and is replaced. Then the agent is started once more, and stopped. -/
def attended : AgentCourse Rehearsal.FaultyLog :=
  .rehearsal .forTesting [.changing (.crashReads 1), .task 0 (.loop 0), .task 0 .heartbeat,
    .task 25000000 .heartbeat, .start 25000000, .stop, .task 25000000 .heartbeat, .call 25000000,
    .task 25000000 (.loop 1), .task 25000000 (.loop 1), .call 25000000, .task 25000000 (.loop 1)]

/-- With a period that can be computed, the heartbeat replaces the loop that has died, and counts
this. The agent refuses to be started meanwhile, and nothing is left to be done once it has
stopped. -/
theorem orderly_in_rehearsal :
    attended.Orderly ∧ attended.Revives 10 ∧ (attended.state 11).agent.restarts = 1 ∧
      attended.Started 11 ∧ (attended.state 11).running = 1 ∧
        attended.state 12 = { attended.state 11 with
          call := .started (.error (.error (.invalidState "Idle" "Running"))) } ∧
          attended.Stopped 18 ∧ (attended.move 18).isOwn = true ∧
            (attended.state 19).commons.log = (attended.state 18).commons.log := by
  have horderly : attended.Orderly :=
    (orderly_iff .forTesting).mpr ⟨_, rfl⟩ Rehearsal.FaultyLog attended rfl
  have hstarted : attended.Started 11 := by
    refine ⟨6, by decide, ⟨_, rfl⟩, fun k hk hk' => ?_⟩
    interval_cases k <;> rfl
  have hstopped : attended.Stopped 18 :=
    ⟨18, le_rfl, by decide +kernel, fun k hk hk' => absurd hk' (not_lt.mpr hk)⟩
  refine ⟨horderly, by decide +kernel, by decide +kernel, hstarted, by decide +kernel,
    horderly.refused 11 25000000 hstarted rfl, hstopped, rfl, (horderly.quiet 18 hstopped rfl).2⟩

/-- The agent is started twice and stopped once. The period of its heartbeat cannot be computed. -/
def unheeded : AgentCourse Rehearsal.FaultyLog :=
  .rehearsal { Config.Polling.forTesting with
      healthCheckPollingTime := "18446744073709551615s 1000000000ns" }
    [.start 0, .call 0, .task 0 (.loop 1), .stop, .call 0, .task 0 (.loop 1), .call 0,
      .changing (.commit [2] "" 0), .task 0 (.loop 0), .task 0 (.loop 0), .task 0 (.loop 0),
      .task 0 (.loop 0)]

/-- There are two loops at a time, and one of them records the mark after the agent was stopped. -/
theorem exists_second_loop :
    ∃ (x : AgentCourse Rehearsal.FaultyLog) (m n : ℕ), (x.state m).agent.loops.length = 2 ∧
      x.Stopped n ∧ (x.move n).isOwn = true ∧ LogView.highWater (x.state n).commons.log = 1 ∧
        LogView.highWater (x.state (n + 1)).commons.log = 2 := by
  refine ⟨unheeded, 9, 18, by decide +kernel, ⟨14, by decide, by decide +kernel, ?_⟩, rfl,
    by decide +kernel, by decide +kernel⟩
  intro k hk hk'
  interval_cases k <;> rfl

end AgentCourse

end Tidemark
