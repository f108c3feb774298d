import Tidemark.Daemon.Call
import Tidemark.Proofs.HighWater.Sole
import Tidemark.Proofs.HighWater.Upkeep

/-!
# The lifetime of a daemon

A daemon is started and shut down while its tasks take their steps, and others use it. Some settings
that a configuration accepts bring the start down, or a task: texts whose parts add up to more than
a duration holds, a heartbeat whose period is zero, a leading edge behind which there is no time,
and more places in a queue or slots than can be counted. With all others (`Config.Daemon.Bearable`)
what is started keeps going (`LifeCourse.upheld_of_bearable`): the heartbeat of a running agent does
not end, dead loops are replaced, and whatever crashes or ends does so for a reason that is none of
the settings.
-/

namespace Tidemark

/-! ## Settings -/

/-- Settings that bring down neither the start of a daemon nor a task of it for as long as the clock
of the world does not go beyond a time. -/
structure Config.Daemon.Bearable (config : Config.Daemon) (latest : Timestamp) : Prop where
  /-- Detection can be kept up. -/
  polling : config.settings.highWater.Bearable latest
  /-- The delays between attempts can be computed. -/
  schedule : ∃ schedule, config.settings.retry.schedule = .ok schedule
  /-- The places of the queue of commands can be counted. -/
  capacity : config.settings.retry.queueCapacity ≤ maxPermits
  /-- The slots for commands can be counted. -/
  concurrency : config.settings.retry.maxConcurrency ≤ maxPermits

/-- The supervisor can be set up exactly if the delays between attempts can be computed, and the
places of the queue and the slots can be counted. -/
theorem Supervisor.new_isOk_iff (policy : Policy) (names : List ShardName)
    (retry : Config.Retrying) : (∃ s, Supervisor.new policy names retry = .ok s) ↔
      (∃ schedule, retry.schedule = .ok schedule) ∧ retry.queueCapacity ≤ maxPermits ∧
        retry.maxConcurrency ≤ maxPermits := by
  unfold Supervisor.new Retry.Block.new Bulkhead.new
  cases hschedule : retry.schedule with
  | error cause => exact iff_of_false (fun ⟨s, hs⟩ => (by cases hs)) fun ⟨⟨_, h⟩, _⟩ => (by cases h)
  | ok schedule =>
    by_cases hcapacity : maxPermits < retry.queueCapacity
    · refine iff_of_false (fun ⟨s, hs⟩ => ?_) fun ⟨_, h, _⟩ => absurd hcapacity (not_lt.mpr h)
      simp only [if_pos hcapacity] at hs
      cases hs
    · by_cases hconcurrency : retry.maxConcurrency ≤ maxPermits
      · refine iff_of_true ?_ ⟨⟨schedule, rfl⟩, not_lt.mp hcapacity, hconcurrency⟩
        simp only [if_neg hcapacity, if_pos hconcurrency]
        exact ⟨_, rfl⟩
      · refine iff_of_false (fun ⟨s, hs⟩ => ?_) fun ⟨_, _, h⟩ => absurd h hconcurrency
        simp only [if_neg hcapacity, if_neg hconcurrency] at hs
        cases hs

/-! ## Lifetimes -/

/-- A daemon, and the call that starts it or shuts it down while there is one. -/
structure Lifetime (L π : Type) where
  daemon : Daemon L π
  call : Option DaemonCall := none

/-- What happens in the lifetime of a daemon. -/
inductive LifeMove (L π : Type) where
  /-- A task takes a step. -/
  | task (now : Moment) (task : DaemonTask)
  /-- The heartbeat goes on with a beat for which it has looked at the stop signal before. -/
  | late (now : Moment)
  /-- Someone begins to start the daemon. -/
  | start (now : Moment)
  /-- Someone begins to shut the daemon down. -/
  | shutdown
  /-- The call takes a step. -/
  | call (now : Moment)
  /-- The call is over, or is given up. -/
  | returns
  /-- Others do something to the daemon, and leave its settings and its agent alone. -/
  | elsewhere (f : Daemon L π → Daemon L π)

/-- The heartbeat takes a step. -/
def LifeMove.isBeat {L π : Type} : LifeMove L π → Bool
  | .task _ (.agent .heartbeat) => true
  | _ => false

/-- The moment of a move that depends on the clock. -/
def LifeMove.now? {L π : Type} : LifeMove L π → Option Moment
  | .task now _ | .late now | .start now | .call now => some now
  | .shutdown | .returns | .elsewhere _ => none

namespace Lifetime

variable {L π : Type} [EventLog L] [Projection π]

/-- The lifetime goes on with a move. There is one call at a time. -/
def perform (x : Lifetime L π) : LifeMove L π → Lifetime L π
  | .task now task => { x with daemon := x.daemon.step now task }
  | .late now =>
    let (agent, commons) := x.daemon.agent.lateBeat x.daemon.commons now
    { x with daemon := { x.daemon with agent := agent, commons := commons } }
  | .start now =>
    match x.call with
    | none =>
      let (call, d) := x.daemon.start now
      ⟨d, some call⟩
    | some _ => x
  | .shutdown =>
    match x.call with
    | none =>
      let (call, d) := x.daemon.beginShutdown
      ⟨d, some call⟩
    | some _ => x
  | .call now =>
    match x.call with
    | some call =>
      let (call, d) := call.step x.daemon now
      ⟨d, some call⟩
    | none => x
  | .returns => { x with call := none }
  | .elsewhere f =>
    { x with daemon := { f x.daemon with config := x.daemon.config, agent := x.daemon.agent } }

/-- The call has crashed. -/
def HasCrashed (x : Lifetime L π) : Prop :=
  match x.call with
  | some (.started (.error (.crash _))) => True
  | some (.starting call) => call.HasCrashed
  | _ => False

/-- The settings are not to blame if a move crashes the call: the first scan goes wrong with it. -/
def Excused (x : Lifetime L π) (now : Moment) : Prop :=
  match x.call with
  | some (.starting call) => call.Excused x.daemon.commons now
  | _ => False

/-- What the caller does to the agent. -/
def agentCall? (x : Lifetime L π) : Option AgentCall :=
  match x.call with
  | some (.starting call) | some (.stopping call) => some call
  | _ => none

/-- A lifetime in which the settings of the daemon have brought nothing down. -/
structure Kept (config : Config.Daemon) (rhythm : Rhythm) (latest : Timestamp)
    (x : Lifetime L π) : Prop where
  settings : x.daemon.config = config
  agent : x.daemon.agent.Kept config.settings.highWater rhythm latest
  call : ∀ call ∈ x.agentCall?, call.Kept latest x.daemon.agent

end Lifetime

section Moves

variable {L π : Type} [EventLog L] [Projection π]

/-- A step of a task that is not one of the agent leaves the settings and the agent alone. -/
theorem Daemon.step_frame (d : Daemon L π) (now : Moment) (task : DaemonTask) :
    (d.step now task).config = d.config ∧
      ((∀ t, task ≠ .agent t) → (d.step now task).agent = d.agent) := by
  cases task with
  | agent task => exact ⟨rfl, fun h => absurd rfl (h task)⟩
  | consumer k =>
    simp only [step, stepConsumer]
    split
    · exact ⟨rfl, fun _ => rfl⟩
    · exact ⟨rfl, fun _ => rfl⟩
  | dispatcher => exact ⟨rfl, fun _ => rfl⟩
  | worker k =>
    simp only [step]
    split
    · exact ⟨rfl, fun _ => rfl⟩
    · exact ⟨rfl, fun _ => rfl⟩

omit [EventLog L] in
/-- Fixing the policy and setting off the consumers leaves the settings and the agent alone, and
crashes only if the supervisor cannot be set up. -/
theorem Daemon.launch_frame (d : Daemon L π) (found : Statistics) :
    (d.launch found).2.config = d.config ∧ (d.launch found).2.agent = d.agent ∧
      ((∃ s, Supervisor.new d.policy (d.projections.map Projection.shardName)
        d.config.settings.retry = .ok s) → (d.launch found).1 = .ok found) := by
  unfold launch
  dsimp only
  split
  · next cause heq =>
    refine ⟨rfl, rfl, fun ⟨s, hs⟩ => ?_⟩
    rw [heq] at hs
    cases hs
  · exact ⟨rfl, rfl, fun _ => rfl⟩

namespace Lifetime

variable {config : Config.Daemon} {rhythm : Rhythm} {latest : Timestamp} {x : Lifetime L π}

omit [EventLog L] [Projection π] in
/-- A lifetime whose agent is kept by something that gives it no heartbeat. -/
theorem Kept.with_agent (h : x.Kept config rhythm latest) {d : Daemon L π}
    (hconfig : d.config = x.daemon.config)
    (hagent : d.agent.Kept config.settings.highWater rhythm latest)
    (hsome : d.agent.heartbeat.isSome = x.daemon.agent.heartbeat.isSome) :
    Kept config rhythm latest { x with daemon := d } :=
  ⟨hconfig.trans h.settings, hagent, fun call hcall => (h.call call hcall).of_heartbeat hsome⟩

omit [EventLog L] [Projection π] in
/-- A lifetime whose agent is left alone. -/
theorem Kept.with_same (h : x.Kept config rhythm latest) {d : Daemon L π}
    (hconfig : d.config = x.daemon.config) (hagent : d.agent = x.daemon.agent) :
    Kept config rhythm latest { x with daemon := d } :=
  h.with_agent hconfig (hagent ▸ h.agent) (by rw [hagent])

omit [EventLog L] [Projection π] in
/-- A lifetime that goes on with a call that does nothing to the agent. -/
theorem Kept.with_call (h : x.Kept config rhythm latest) {d : Daemon L π}
    (hconfig : d.config = x.daemon.config) (hagent : d.agent = x.daemon.agent)
    {call : Option DaemonCall} (hnone : agentCall? ⟨d, call⟩ = none) :
    Kept config rhythm latest ⟨d, call⟩ :=
  ⟨hconfig.trans h.settings, hagent ▸ h.agent, fun a ha => (by rw [hnone] at ha; cases ha)⟩

/-- A step of a task. -/
theorem Kept.task [TimelyLog L] (h : x.Kept config rhythm latest)
    (hrhythm : config.settings.highWater.rhythm = .ok rhythm) {harbor : Timestamp}
    (hharbor : latest.plus rhythm.leadingEdge = .ok harbor) {now : Moment}
    (hnow : x.daemon.commons.time now ≤ latest) (task : DaemonTask) :
    (x.perform (.task now task)).Kept config rhythm latest := by
  obtain ⟨hconfig, hsame⟩ := x.daemon.step_frame now task
  cases task with
  | agent task =>
    exact h.with_agent hconfig (h.agent.step hrhythm hharbor hnow task)
      (Agent.isSome_heartbeat_step x.daemon.commons now x.daemon.agent task)
  | _ => exact h.with_same hconfig (hsame (by simp))

/-- A step of the call, which crashes only if the settings are not to blame. -/
theorem Kept.callStep [TimelyLog L] (h : x.Kept config rhythm latest) (hb : config.Bearable latest)
    {call : DaemonCall} (hcall : x.call = some call) {now : Moment}
    (hnow : x.daemon.commons.time now ≤ latest) :
    Kept config rhythm latest ⟨(call.step x.daemon now).2, some (call.step x.daemon now).1⟩ ∧
      (HasCrashed ⟨(call.step x.daemon now).2, some (call.step x.daemon now).1⟩ →
        x.HasCrashed ∨ x.Excused now) := by
  have hagent (a : AgentCall) (ha : x.agentCall? = some a) :=
    let ⟨_, hperiod, hzero⟩ := hb.polling.period
    (h.call a ha).step h.agent hperiod hzero hnow
  -- Most steps leave the agent alone and do not crash.
  have halone {d : Daemon L π} {call' : DaemonCall} (hconfig : d.config = x.daemon.config)
      (hsame : d.agent = x.daemon.agent) (hnone : agentCall? ⟨d, some call'⟩ = none)
      (hnot : HasCrashed ⟨d, some call'⟩ → x.HasCrashed) :
      Kept config rhythm latest ⟨d, some call'⟩ ∧
        (HasCrashed ⟨d, some call'⟩ → x.HasCrashed ∨ x.Excused now) :=
    ⟨h.with_call hconfig hsame hnone, fun hcrashed => .inl (hnot hcrashed)⟩
  have hjoin (d : Daemon L π) (k : ℕ) (hconfig : d.config = x.daemon.config)
      (hsame : d.agent = x.daemon.agent) :
      Kept config rhythm latest ⟨(d.join now k).2, some (d.join now k).1⟩ ∧
        (HasCrashed ⟨(d.join now k).2, some (d.join now k).1⟩ → x.HasCrashed ∨ x.Excused now) := by
    unfold Daemon.join
    split_ifs
    · exact halone hconfig hsame rfl False.elim
    · exact halone hconfig hsame rfl False.elim
  cases call with
  | starting a =>
    obtain ⟨hkept, hnext, hcrashed⟩ := hagent a (by simp [agentCall?, hcall])
    have hback (hor : a.HasCrashed ∨ a.Excused x.daemon.commons now) :
        x.HasCrashed ∨ x.Excused now := by simpa [HasCrashed, Excused, hcall] using hor
    cases a with
    | started outcome =>
      cases outcome with
      | ok found =>
        obtain ⟨hconfig, hsame, hok⟩ := x.daemon.launch_frame found
        have hnew := (Supervisor.new_isOk_iff x.daemon.policy
          (x.daemon.projections.map Projection.shardName) x.daemon.config.settings.retry).mpr
            (by rw [h.settings]; exact ⟨hb.schedule, hb.capacity, hb.concurrency⟩)
        refine halone hconfig hsame rfl fun hcrash => ?_
        simp [HasCrashed, DaemonCall.step, hok hnew] at hcrash
      | error fault =>
        cases fault with
        | error e => exact halone rfl rfl rfl False.elim
        | crash cause => exact ⟨h.with_call rfl rfl rfl, fun _ => hback (.inl trivial)⟩
    | _ =>
      exact ⟨⟨h.settings, hkept, fun _ heq => Option.some.inj heq ▸ hnext⟩,
        fun hcrash => hback (hcrashed hcrash)⟩
  | stopping a =>
    obtain ⟨hkept, hnext, -⟩ := hagent a (by simp [agentCall?, hcall])
    cases a with
    | stopped => exact hjoin { x.daemon with shutdown := true } 0 rfl rfl
    | _ => exact ⟨⟨h.settings, hkept, fun _ heq => Option.some.inj heq ▸ hnext⟩, False.elim⟩
  | started outcome =>
    refine halone rfl rfl rfl fun hcrash => ?_
    unfold HasCrashed at hcrash ⊢
    rw [hcall]
    exact hcrash
  | joining k due => exact hjoin x.daemon (k + 1) rfl rfl
  | draining => exact halone rfl rfl rfl False.elim
  | stopped => exact halone rfl rfl rfl False.elim
  | reporting r =>
    cases r with
    | done outcome => exact halone rfl rfl rfl False.elim
    | posting k p =>
      simp only [DaemonCall.step]
      split
      · exact halone rfl rfl rfl False.elim
      · exact halone rfl rfl rfl False.elim
  | reported outcome => exact halone rfl rfl rfl False.elim

/-- A move that is made in time. The call crashes only if the settings are not to blame. -/
theorem Kept.perform [TimelyLog L] (h : x.Kept config rhythm latest) (hb : config.Bearable latest)
    (hrhythm : config.settings.highWater.rhythm = .ok rhythm) {harbor : Timestamp}
    (hharbor : latest.plus rhythm.leadingEdge = .ok harbor) (m : LifeMove L π)
    (hnow : ∀ now ∈ m.now?, x.daemon.commons.time now ≤ latest) :
    (x.perform m).Kept config rhythm latest ∧
      ((x.perform m).HasCrashed → x.HasCrashed ∨ ∃ now, m = .call now ∧ x.Excused now) := by
  cases m with
  | task now task => exact ⟨h.task hrhythm hharbor (hnow now rfl) task, .inl⟩
  | late now =>
    have hsome := (x.daemon.agent.beaten_lateBeat x.daemon.commons now).isSome_heartbeat
    exact ⟨h.with_agent rfl (h.agent.lateBeat x.daemon.commons now) hsome, .inl⟩
  | start now =>
    cases hcall : x.call with
    | some call =>
      simp only [Lifetime.perform, hcall]
      exact ⟨h, .inl⟩
    | none =>
      simp only [Lifetime.perform, hcall, Daemon.start]
      split
      · exact ⟨h.with_call rfl rfl rfl, False.elim⟩
      · obtain ⟨hkept, hnot⟩ := AgentCall.kept_start x.daemon.agent
          (x.daemon.enter .starting).commons now latest
        exact ⟨⟨h.settings, h.agent.start _ now, fun _ heq => Option.some.inj heq ▸ hkept⟩,
          fun hcrash => absurd hcrash hnot⟩
  | shutdown =>
    cases hcall : x.call with
    | some call =>
      simp only [Lifetime.perform, hcall]
      exact ⟨h, .inl⟩
    | none =>
      simp only [Lifetime.perform, hcall, Daemon.beginShutdown]
      split
      · exact ⟨h.with_call rfl rfl rfl, False.elim⟩
      · refine ⟨h.with_call ?_ ?_ ?_, False.elim⟩ <;> rfl
      · exact ⟨⟨h.settings, h.agent.stop, fun _ heq => Option.some.inj heq ▸ trivial⟩, False.elim⟩
  | call now =>
    cases hcall : x.call with
    | none =>
      simp only [Lifetime.perform, hcall]
      exact ⟨h, .inl⟩
    | some call =>
      obtain ⟨hkept, hcrashed⟩ := h.callStep hb hcall (hnow now rfl)
      simp only [Lifetime.perform, hcall]
      exact ⟨hkept, fun hcrash => (hcrashed hcrash).imp id fun hexcused => ⟨now, rfl, hexcused⟩⟩
  | returns => exact ⟨h.with_call rfl rfl rfl, False.elim⟩
  | elsewhere f => exact ⟨h.with_same rfl rfl, .inl⟩

/-- What a move does to the agent: it is a step of one of its tasks or a late beat, someone begins
to start or to stop the agent or goes on with that, or nothing happens to it. -/
inductive AgentMoved (x : Lifetime L π) (m : LifeMove L π) : Agent → Prop where
  | task {now : Moment} {task : AgentTask} (hm : m = .task now (.agent task)) :
    AgentMoved x m (x.daemon.agent.step x.daemon.commons now task).1
  | late (now : Moment) (hm : m.isBeat = false) :
    AgentMoved x m (x.daemon.agent.lateBeat x.daemon.commons now).1
  | starts (c : Commons L) (now : Moment) (hm : m.isBeat = false) :
    AgentMoved x m (x.daemon.agent.start c now).2
  | stops (hm : m.isBeat = false) : AgentMoved x m x.daemon.agent.stop.2
  | call {call : AgentCall} (now : Moment) (hm : m.isBeat = false) (hcall : call ∈ x.agentCall?) :
    AgentMoved x m (call.step x.daemon.agent x.daemon.commons now).2.1
  | nothing (hm : m.isBeat = false) : AgentMoved x m x.daemon.agent

omit [Projection π] in
/-- A move leaves the agent alone if it is the same afterwards. -/
theorem AgentMoved.of_eq {m : LifeMove L π} (hm : m.isBeat = false) {a : Agent}
    (h : a = x.daemon.agent) : AgentMoved x m a := h ▸ .nothing hm

/-- A step of the call moves the agent. -/
theorem agentMoved_callStep {call : DaemonCall} (hcall : x.call = some call) (now : Moment)
    {m : LifeMove L π} (hm : m.isBeat = false) :
    AgentMoved x m (call.step x.daemon now).2.agent := by
  have hjoin (d : Daemon L π) (k : ℕ) (hd : d.agent = x.daemon.agent) :
      AgentMoved x m (d.join now k).2.agent := by
    unfold Daemon.join
    split_ifs <;> exact .of_eq hm hd
  cases call with
  | starting a =>
    have ha : x.agentCall? = some a := by simp [agentCall?, hcall]
    cases a with
    | started outcome =>
      cases outcome with
      | ok found => exact .of_eq hm (x.daemon.launch_frame found).2.1
      | error fault => cases fault <;> exact .nothing hm
    | _ => exact .call now hm ha
  | stopping a =>
    have ha : x.agentCall? = some a := by simp [agentCall?, hcall]
    cases a with
    | stopped => exact hjoin { x.daemon with shutdown := true } 0 rfl
    | _ => exact .call now hm ha
  | joining k due => exact hjoin x.daemon (k + 1) rfl
  | reporting r =>
    cases r with
    | done outcome => exact .nothing hm
    | posting k p =>
      simp only [DaemonCall.step]
      split <;> exact .nothing hm
  | _ => exact .nothing hm

/-- Every move moves the agent or leaves it alone. -/
theorem agentMoved (x : Lifetime L π) (m : LifeMove L π) :
    AgentMoved x m (x.perform m).daemon.agent := by
  cases m with
  | task now task =>
    cases task with
    | agent task => exact .task rfl
    | consumer k => exact .of_eq rfl ((x.daemon.step_frame now (.consumer k)).2 (by simp))
    | dispatcher => exact .nothing rfl
    | worker k => exact .of_eq rfl ((x.daemon.step_frame now (.worker k)).2 (by simp))
  | late now => exact .late now rfl
  | start now =>
    simp only [perform]
    split
    · simp only [Daemon.start]
      split
      · exact .nothing rfl
      · exact .starts _ now rfl
    · exact .nothing rfl
  | shutdown =>
    simp only [perform]
    split
    · simp only [Daemon.beginShutdown]
      split
      · exact .nothing rfl
      · exact .nothing rfl
      · exact .stops rfl
    · exact .nothing rfl
  | call now =>
    simp only [perform]
    split
    · next call hcall => exact agentMoved_callStep hcall now rfl
    · exact .nothing rfl
  | returns => exact .nothing rfl
  | elsewhere f => exact .nothing rfl

/-- A move leaves all loops alive but the one that has ended with it. -/
theorem isAlive_perform (m : LifeMove L π) {k : ℕ} (hk : x.daemon.agent.isAlive k = true) :
    (x.perform m).daemon.agent.isAlive k = true ∨ ∃ now l, m = .task now (.agent (.loop k)) ∧
      x.daemon.agent.loops.lookup k = some l ∧
        (l.step x.daemon.agent.detection x.daemon.commons now).1 = none := by
  have hmoved := x.agentMoved m
  generalize (x.perform m).daemon.agent = a at hmoved ⊢
  cases hmoved with
  | @task now task hm =>
    refine (x.daemon.agent.isAlive_step x.daemon.commons now task hk).imp id ?_
    rintro ⟨l, rfl, hl, hnone⟩
    exact ⟨now, l, hm, hl, hnone⟩
  | late now =>
    have hbeaten := x.daemon.agent.beaten_lateBeat x.daemon.commons now
    exact .inl (Agent.isAlive_of_loops hbeaten.keeps_loops hk)
  | starts c now =>
    refine .inl ?_
    unfold Agent.start
    split_ifs <;> exact hk
  | stops => exact .inl hk
  | @call call now => exact .inl (call.isAlive_step x.daemon.commons now hk)
  | nothing => exact .inl hk

/-- A move after which the agent is still running is a beat, or leaves the next beat as far away as
it was, and brings it closer if the heartbeat takes a step. -/
theorem Kept.beats_or_delays (h : x.Kept config rhythm latest)
    (hrunning : x.daemon.agent.isRunning = true) (m : LifeMove L π)
    (hstill : (x.perform m).daemon.agent.isRunning = true) :
    x.daemon.agent.BeatsOver (x.perform m).daemon.agent ∨
      (x.perform m).daemon.agent.delays ≤ x.daemon.agent.delays ∧
        (m.isBeat = true → (x.perform m).daemon.agent.delays < x.daemon.agent.delays) := by
  have hmoved := x.agentMoved m
  generalize (x.perform m).daemon.agent = a at hmoved hstill ⊢
  have hsame (hpulse : x.daemon.agent.SamePulse a) (hm : m.isBeat = false) :
      x.daemon.agent.BeatsOver a ∨ a.delays ≤ x.daemon.agent.delays ∧
        (m.isBeat = true → a.delays < x.daemon.agent.delays) :=
    .inr ⟨hpulse.delays.le, fun hbeat => by rw [hm] at hbeat; cases hbeat⟩
  cases hmoved with
  | @task now task hm =>
    cases task with
    | heartbeat =>
      refine (h.agent.beats_or_delays hrunning x.daemon.commons now).imp id fun hlt => ?_
      exact ⟨hlt.le, fun _ => hlt⟩
    | loop k =>
      exact hsame (x.daemon.agent.step_loop_pulse x.daemon.commons now k) (by rw [hm]; rfl)
  | late now hm =>
    rcases x.daemon.agent.lateBeat_beats x.daemon.commons now with hbeats | heq
    · exact .inl hbeats
    · exact hsame ⟨by rw [heq], by rw [heq]⟩ hm
  | starts c now hm =>
    -- A running agent has a heartbeat, and refuses to be started.
    have hsome : x.daemon.agent.heartbeat.isSome = true := (Bool.and_eq_true_iff.mp hrunning).1
    exact hsame ⟨by simp [Agent.start, hsome], by simp [Agent.start, hsome]⟩ hm
  | stops =>
    simp [Agent.isRunning, Agent.stop, Watched.put] at hstill
  | @call call now hm hcall =>
    exact hsame (AgentCall.Kept.pulse (h.call call hcall) hrunning hstill) hm
  | nothing hm => exact hsame ⟨rfl, rfl⟩ hm

end Lifetime

end Moves

/-! ## Courses -/

/-- The dispatcher takes items from the queue, and finds slots for them. -/
def Retry.Dispatcher.isServing {ι : Type} : Dispatcher ι → Bool
  | .receiving | .acquiring _ _ => true
  | .joining | .done => false

/-- The dispatcher of an open block goes on. -/
theorem Retry.Block.isServing_stepDispatcher {ι κ : Type} {b : Block ι κ} (hopen : b.isOpen = true)
    (h : b.dispatcher.isServing = true) : b.stepDispatcher.dispatcher.isServing = true := by
  have hunsealed : b.isSealed = false := by simp [isSealed, hopen]
  unfold stepDispatcher
  split
  · split
    · rfl
    · rw [hunsealed]
      exact h
  · split_ifs
    · rfl
    · exact h
  · next heq => simp [heq, Dispatcher.isServing] at h
  · next heq => simp [heq, Dispatcher.isServing] at h

/-- A new daemon with these settings is started, shut down and left to itself. -/
structure LifeCourse (L π : Type) where
  config : Config.Daemon
  log : L
  origin : Timestamp
  move : ℕ → LifeMove L π

namespace LifeCourse

variable {L π : Type} [EventLog L] [Projection π]

/-- The state before a move. -/
def state (x : LifeCourse L π) : ℕ → Lifetime L π
  | 0 => { daemon := .new x.config x.log x.origin }
  | n + 1 => (x.state n).perform (x.move n)

variable (x : LifeCourse L π)

/-- The agent before a move. -/
def agent (n : ℕ) : Agent := (x.state n).daemon.agent

/-- The clock of the world does not go beyond a time. -/
def Timely (latest : Timestamp) : Prop :=
  ∀ n, ∀ now ∈ (x.move n).now?, (x.state n).daemon.commons.time now ≤ latest

/-- The heartbeat takes steps again and again. -/
def Served : Prop := ∀ n, ∃ m ≥ n, (x.move m).isBeat = true

/-- The course that begins with some moves and goes on with the same one again and again. -/
def ofMoves (config : Config.Daemon) (log : L) (origin : Timestamp) (moves : List (LifeMove L π))
    (last : LifeMove L π) : LifeCourse L π :=
  ⟨config, log, origin, fun n => moves.getD n last⟩

/-- No setting brings anything down. -/
structure Upheld : Prop where
  /-- Whoever starts the daemon crashes only if the first scan goes wrong. -/
  start : ∀ n, ¬ (x.state n).HasCrashed → (x.state (n + 1)).HasCrashed →
    ∃ now, x.move n = .call now ∧ (x.state n).Excused now
  /-- The heartbeat of a running agent has not ended. -/
  heartbeat : ∀ n, (x.agent n).isRunning = true →
    ∃ beat, (x.agent n).heartbeat = some beat ∧ beat.ended = false
  /-- A loop ends only if the agent is being stopped, if the scan of the loop goes wrong, or if its
  first scan fails. -/
  loops : ∀ n k, (x.agent n).isAlive k = true → (x.agent (n + 1)).isAlive k = false →
    ∃ now l, x.move n = .task now (.agent (.loop k)) ∧ (x.agent n).loops.lookup k = some l ∧
      l.Excused (x.agent n).detection (x.state n).daemon.commons now
  /-- As long as the agent is running, there are beats that replace dead loops. -/
  restarts : x.Served → ∀ n, ∃ m ≥ n,
    (∃ k, n ≤ k ∧ k ≤ m ∧ (x.agent k).isRunning = false) ∨ (x.agent m).BeatsOver (x.agent (m + 1))
  /-- The dispatcher of commands goes on as long as commands are accepted. -/
  dispatcher : ∀ n now s, x.move n = .task now .dispatcher →
    (x.state n).daemon.supervisor = some s → s.commands.isOpen = true →
      s.commands.dispatcher.isServing = true →
        ∃ s', (x.state (n + 1)).daemon.supervisor = some s' ∧
          s'.commands.dispatcher.isServing = true

variable {x} {latest : Timestamp}

/-! ## Settings that can be borne -/

section Bearable

variable [TimelyLog L]

/-- Settings that can be borne bring nothing down. -/
theorem kept (hb : x.config.Bearable latest) (hx : x.Timely latest) {rhythm : Rhythm}
    (hrhythm : x.config.settings.highWater.rhythm = .ok rhythm) {harbor : Timestamp}
    (hharbor : latest.plus rhythm.leadingEdge = .ok harbor) (n : ℕ) :
    (x.state n).Kept x.config rhythm latest := by
  induction n with
  | zero => exact ⟨rfl, Agent.kept_new _ _ _, fun _ h => (by cases h)⟩
  | succ n ih => exact (ih.perform hb hrhythm hharbor (x.move n) (hx n)).1

omit [TimelyLog L] in
/-- From any moment on the heartbeat comes to a beat, or the agent is not running any more. -/
theorem beats_of_kept {config : Config.Daemon} {rhythm : Rhythm}
    (hkept : ∀ n, (x.state n).Kept config rhythm latest) (hserved : x.Served) (n : ℕ) :
    ∃ m ≥ n, (∃ k, n ≤ k ∧ k ≤ m ∧ (x.agent k).isRunning = false) ∨
      (x.agent m).BeatsOver (x.agent (m + 1)) := by
  by_contra! hnever
  have hrunning (k : ℕ) (hk : n ≤ k) : (x.agent k).isRunning = true := by
    simpa using (hnever k hk).1 k hk le_rfl
  have hdelays (m : ℕ) (hm : n ≤ m) : (x.agent (m + 1)).delays ≤ (x.agent m).delays ∧
      ((x.move m).isBeat = true → (x.agent (m + 1)).delays < (x.agent m).delays) :=
    ((hkept m).beats_or_delays (hrunning m hm) (x.move m)
      (hrunning (m + 1) (by omega))).resolve_left (hnever m hm).2
  -- The next beat never gets further away, and comes closer with every step of the heartbeat.
  have hle (k m : ℕ) (hk : n ≤ k) (hkm : k ≤ m) : (x.agent m).delays ≤ (x.agent k).delays := by
    induction m, hkm using Nat.le_induction with
    | base => exact le_rfl
    | succ m hkm ih => exact (hdelays m (by omega)).1.trans ih
  have hnone (d : ℕ) : ∀ k ≥ n, (x.agent k).delays ≠ d := by
    induction d using Nat.strongRec with
    | ind d ih =>
      rintro k hk rfl
      obtain ⟨m, hkm, hbeat⟩ := hserved k
      have hlt := (hdelays m (by omega)).2 hbeat
      exact ih _ (hlt.trans_le (hle k m hk hkm)) (m + 1) (by omega) rfl
  exact hnone _ n le_rfl rfl

/-- Settings that can be borne bring nothing down. -/
theorem upheld_of_bearable (hb : x.config.Bearable latest) (hx : x.Timely latest) : x.Upheld := by
  obtain ⟨rhythm, hrhythm, harbor, hharbor⟩ := hb.polling.rhythm
  have hkept := kept hb hx hrhythm hharbor
  refine ⟨fun n hnot hcrashed => ?_, fun n hrunning => ?_, fun n k hk hdead => ?_,
    fun hserved n => beats_of_kept hkept hserved n, fun n now s hm hs hopen hserving => ?_⟩
  · exact (((hkept n).perform hb hrhythm hharbor (x.move n) (hx n)).2 hcrashed).resolve_left hnot
  · obtain ⟨hsome, hset⟩ := Bool.and_eq_true_iff.mp hrunning
    obtain ⟨beat, hbeat⟩ := Option.isSome_iff_exists.mp hsome
    refine ⟨beat, hbeat, Bool.eq_false_iff.mpr fun hended => ?_⟩
    have hstopping := (hkept n).agent.beats beat hbeat hended
    simp [agent, hstopping] at hset
  · rcases Lifetime.isAlive_perform (x.move n) hk with halive | ⟨now, l, hm, hl, hnone⟩
    · rw [agent, state, halive] at hdead
      cases hdead
    · have hnow := hx n now (by rw [hm]; rfl)
      exact ⟨now, l, hm, hl, ((hkept n).agent.keeps hrhythm hharbor hnow hl).excused hnone⟩
  · refine ⟨s.stepDispatcher, ?_, s.commands.isServing_stepDispatcher hopen hserving⟩
    simp [state, hm, Lifetime.perform, Daemon.step, hs]

end Bearable

end LifeCourse

end Tidemark
