import Mathlib.Data.List.GetD
import Tidemark.Proofs.Daemon.Lifetime
import Tidemark.Rehearsal.Log
import Tidemark.Rehearsal.Projection

/-!
# Settings that bring a daemon down

The settings that can be borne are exactly those with which a daemon lasts
(`LifeCourse.upheld_iff`). With any other, one of a few courses shows what comes down: a daemon is
started where nothing is committed at the positions that are assigned, so that every scan finds the
mark standing still, and then its loop, its heartbeat or whoever starts it goes on for a few steps.
If the heartbeat has come down, nobody replaces a loop that dies, and yet the daemon goes on running
(`LifeCourse.exists_dead_for_good`).
-/

namespace Tidemark

open Rehearsal

/-! ## Where the mark stands still -/

/-- Two positions are assigned and nothing is committed, and the clock of the world began at a
time. -/
structure Commons.Standing (latest : Timestamp) (c : Commons MemoryLog) : Prop where
  log : ∃ calls, c.log = { highest := 2, calls := calls }
  origin : c.origin = ⟨latest.nanos, false⟩

/-- What every scan finds then. -/
def Statistics.standing (latest : Timestamp) : Statistics :=
  ⟨0, 2, 0, 0, ⟨latest.nanos + (0 : ℕ), false⟩, none⟩

namespace Commons.Standing

variable {latest : Timestamp} {c : Commons MemoryLog}

/-- It is not too late. -/
theorem time_le (h : c.Standing latest) : c.time 0 ≤ latest := by
  show c.origin.nanos + ((0 : ℕ) : ℤ) ≤ latest.nanos
  simp [h.origin]

/-- A scan reads statistics. -/
theorem reading (h : c.Standing latest) : ∃ c', c'.Standing latest ∧
    Scan.step ⟨.reading none, false, 0, 0⟩ c 0 =
      (.more ⟨.scanning (.standing latest), false, 0, 0⟩, c') := by
  obtain ⟨log, tracker, metrics, origin⟩ := c
  obtain ⟨⟨calls, rfl⟩, rfl⟩ := h
  exact ⟨_, ⟨⟨calls + 1, rfl⟩, rfl⟩, rfl⟩

/-- A scan finds no gap. -/
theorem scanning (h : c.Standing latest) : ∃ c', c'.Standing latest ∧
    Scan.step ⟨.scanning (.standing latest), false, 0, 0⟩ c 0 =
      (.more ⟨.measuring (.standing latest), false, 0, 0⟩, c') := by
  obtain ⟨log, tracker, metrics, origin⟩ := c
  obtain ⟨⟨calls, rfl⟩, rfl⟩ := h
  exact ⟨_, ⟨⟨calls + 1, rfl⟩, rfl⟩, rfl⟩

/-- A scan finds nothing committed. -/
theorem measuring (h : c.Standing latest) : ∃ c', c'.Standing latest ∧
    Scan.step ⟨.measuring (.standing latest), false, 0, 0⟩ c 0 =
      (.ended (.ok (.standing latest)), c') := by
  obtain ⟨log, tracker, metrics, origin⟩ := c
  obtain ⟨⟨calls, rfl⟩, rfl⟩ := h
  exact ⟨_, ⟨⟨calls + 1, rfl⟩, rfl⟩, rfl⟩

/-- What a scan finds can be published. -/
theorem not_goesWrong (h : c.Standing latest) :
    ¬ Scan.GoesWrong ⟨.measuring (.standing latest), false, 0, 0⟩ c 0 := by
  obtain ⟨c', -, hstep⟩ := h.measuring
  have hfits : ((2 : Position) - 0).Fits := by decide
  rw [Scan.goesWrong_of_found hstep, not_not]
  exact hfits

/-- What a scan finds is published. -/
theorem publish (h : c.Standing latest) (d : Detection) : ∃ c', c'.Standing latest ∧
    d.publish c (.standing latest) =
      (.ok (), { d with latest := some (.standing latest) }, c') := by
  refine ⟨_, ?_, rfl⟩
  exact ⟨h.log, h.origin⟩

end Commons.Standing

namespace Lifetime

variable {polling : Config.Polling} {latest : Timestamp} {stage stage' : LoopStage}
  {x : Lifetime MemoryLog ScriptedProjection}

/-- The agent has one loop, which has come so far, and is not being stopped. -/
structure Looping (polling : Config.Polling) (latest : Timestamp) (stage : LoopStage)
    (x : Lifetime MemoryLog ScriptedProjection) : Prop where
  commons : x.daemon.commons.Standing latest
  polled : x.daemon.agent.detection.config = polling
  stopping : x.daemon.agent.detection.stopping = ⟨false, 1⟩
  loops : x.daemon.agent.loops = [(0, ⟨stage, 1⟩)]

/-- The loop takes a step and goes on. -/
theorem Looping.step (h : x.Looping polling latest stage)
    (hstep : ∀ d c, d.config = polling → d.stopping = ⟨false, 1⟩ → Commons.Standing latest c →
      ∃ c', c'.Standing latest ∧ DetectionLoop.step ⟨stage, 1⟩ d c 0 = (some ⟨stage', 1⟩, d, c')) :
    (x.perform (.task 0 (.agent (.loop 0)))).Looping polling latest stage' := by
  obtain ⟨c', hc', heq⟩ := hstep _ _ h.polled h.stopping h.commons
  have hl : x.daemon.agent.loops.lookup 0 = some ⟨stage, 1⟩ := by simp [h.loops]
  simp only [perform, Daemon.step, Agent.step, hl, heq]
  exact ⟨hc', h.polled, h.stopping, by simp [Agent.setLoop, h.loops]⟩

/-- The loop takes a step and ends. -/
theorem Looping.ends (h : x.Looping polling latest stage)
    (hstep : ∀ d c, d.config = polling → Commons.Standing latest c →
      (DetectionLoop.step ⟨stage, 1⟩ d c 0).1 = none) :
    x.daemon.agent.isAlive 0 = true ∧
      (x.perform (.task 0 (.agent (.loop 0)))).daemon.agent.isAlive 0 = false := by
  have hnone := hstep _ _ h.polled h.commons
  constructor
  · simp [Agent.isAlive, h.loops]
  · simp [perform, Daemon.step, Agent.step, hnone, Agent.isAlive, Agent.setLoop, h.loops]

/-- A loop that has been given the result of a first scan begins another one, if the delays can be
computed. -/
theorem Looping.opens (h : x.Looping polling latest (.opening (.standing latest)))
    {rhythm : Rhythm} (hrhythm : polling.rhythm = .ok rhythm) :
    (x.perform (.task 0 (.agent (.loop 0)))).Looping polling latest
      (.running (.standing latest) rhythm (.detecting ⟨.reading none, false, 0, 0⟩)) := by
  refine h.step fun d c hd hstopping hc => ⟨c, hc, ?_⟩
  have hdelays : d.rhythm = .ok rhythm := by rw [← hrhythm, ← hd]; rfl
  simp only [DetectionLoop.step, hdelays, DetectionLoop.nextRound, DetectionLoop.unlessStopping,
    hstopping, Bool.false_eq_true, if_false]
  rfl

/-- A loop goes on with its scan. -/
theorem Looping.detects {rhythm : Rhythm} {scan scan' : Scan}
    (h : x.Looping polling latest (.running (.standing latest) rhythm (.detecting scan)))
    (hscan : ∀ c, Commons.Standing latest c →
      ∃ c', c'.Standing latest ∧ scan.step c 0 = (.more scan', c')) :
    (x.perform (.task 0 (.agent (.loop 0)))).Looping polling latest
      (.running (.standing latest) rhythm (.detecting scan')) := by
  refine h.step fun d c _ _ hc => ?_
  obtain ⟨c', hc', heq⟩ := hscan c hc
  exact ⟨c', hc', by simp only [DetectionLoop.step, heq]⟩

/-- A loop that finds the mark standing still ends if there is no time behind the leading edge. -/
theorem step_of_overflow {rhythm : Rhythm}
    (h : ¬ ∃ harbor, latest.plus rhythm.leadingEdge = .ok harbor) (d : Detection)
    {c : Commons MemoryLog} (hc : c.Standing latest) :
    (DetectionLoop.step ⟨.running (.standing latest) rhythm
      (.detecting ⟨.measuring (.standing latest), false, 0, 0⟩), 1⟩ d c 0).1 = none := by
  obtain ⟨c', -, hscan⟩ := hc.measuring
  -- The scan before found the same, so the loop gives writers their time from then on.
  have hstale : (Statistics.standing latest).status (.standing latest) = .stale := rfl
  have hplus : (Statistics.standing latest).timestamp.plus rhythm.leadingEdge =
      .error .timestampOverflow := by
    unfold Timestamp.plus at h ⊢
    split_ifs at h with hlast
    · exact absurd ⟨_, rfl⟩ h
    · exact if_neg (by simpa [Statistics.standing] using hlast)
  simp only [DetectionLoop.step, hscan, DetectionLoop.classify, hstale, DetectionLoop.bide, hplus]

/-- The daemon was started, its loop and its heartbeat are set off. -/
structure Launched (config : Config.Daemon) (latest : Timestamp) (period : Duration)
    (x : Lifetime MemoryLog ScriptedProjection) : Prop extends
    x.Looping config.settings.highWater latest (.opening (.standing latest)) where
  settings : x.daemon.config = config
  heartbeat : x.daemon.agent.heartbeat = some ⟨period, 1, none, false⟩
  call : x.call = some (.starting (.started (.ok (.standing latest))))

/-- A heartbeat whose period is zero ends with its first step, while the agent is running. -/
theorem Launched.ends {config : Config.Daemon} (h : x.Launched config latest .zero) :
    (x.perform (.task 0 (.agent .heartbeat))).daemon.agent.heartbeat = some ⟨.zero, 1, none, true⟩ ∧
      (x.perform (.task 0 (.agent .heartbeat))).daemon.agent.isRunning = true := by
  simp [perform, Daemon.step, Agent.step, Agent.stepHeartbeat, h.heartbeat, h.stopping,
    Agent.isRunning]

/-- If the supervisor cannot be set up, whoever starts the daemon crashes. -/
theorem Launched.crashes {config : Config.Daemon} {period : Duration}
    (h : x.Launched config latest period)
    (herror : ¬ ∃ s, Supervisor.new x.daemon.policy
      (x.daemon.projections.map Projection.shardName) config.settings.retry = .ok s) :
    (x.perform (.call 0)).HasCrashed := by
  simp only [perform, h.call, DaemonCall.step, Daemon.launch, h.settings]
  split
  · trivial
  · next s heq => exact absurd ⟨s, heq⟩ herror

/-- Whoever starts the daemon is about to end the first scan. -/
structure Scanning (config : Config.Daemon) (latest : Timestamp)
    (x : Lifetime MemoryLog ScriptedProjection) : Prop where
  settings : x.daemon.config = config
  commons : x.daemon.commons.Standing latest
  agent : x.daemon.agent =
    { detection := { config := config.settings.highWater, stopping := ⟨false, 1⟩ } }
  call : x.call = some (.starting (.starting ⟨.measuring (.standing latest), false, 0, 0⟩))

variable {config : Config.Daemon}

/-- The first scan does not go wrong. -/
theorem Scanning.not_excused (h : x.Scanning config latest) : ¬ x.Excused 0 := by
  simp only [Excused, h.call]
  exact h.commons.not_goesWrong

/-- If the period of the heartbeat cannot be computed, whoever starts the daemon crashes. -/
theorem Scanning.crashes (h : x.Scanning config latest) {cause : Crash}
    (herror : config.settings.highWater.healthCheck = .error cause) :
    (x.perform (.call 0)).HasCrashed := by
  obtain ⟨c, hc, hscan⟩ := h.commons.measuring
  obtain ⟨c', -, hpublish⟩ :=
    hc.publish { config := config.settings.highWater, stopping := ⟨false, 1⟩ }
  simp only [perform, h.call, DaemonCall.step, AgentCall.step, hscan, h.agent, Agent.launch,
    hpublish, herror]
  trivial

/-- If it can, the loop and the heartbeat are set off. -/
theorem Scanning.launches (h : x.Scanning config latest) {period : Duration}
    (hperiod : config.settings.highWater.healthCheck = .ok period) :
    (x.perform (.call 0)).Launched config latest period := by
  obtain ⟨c, hc, hscan⟩ := h.commons.measuring
  obtain ⟨c', hc', hpublish⟩ :=
    hc.publish { config := config.settings.highWater, stopping := ⟨false, 1⟩ }
  have hstanding : (c'.measure (·.setAgentRunning true)).Standing latest := ⟨hc'.log, hc'.origin⟩
  simp only [perform, h.call, DaemonCall.step, AgentCall.step, hscan, h.agent, Agent.launch,
    hpublish, hperiod]
  exact ⟨⟨hstanding, rfl, rfl, rfl⟩, h.settings, rfl, rfl⟩

end Lifetime

namespace LifeCourse

variable (config : Config.Daemon) (latest : Timestamp)
  (moves : List (LifeMove MemoryLog ScriptedProjection))

/-- A daemon is started where the mark stands still, and goes on with some moves. -/
def standing : LifeCourse MemoryLog ScriptedProjection :=
  .ofMoves config { highest := 2 } ⟨latest.nanos, false⟩
    ([.start 0, .call 0, .call 0, .call 0] ++ moves) (.elsewhere id)

/-- Two round trips of the first scan are over. -/
theorem standing_scans :
    ((standing config latest moves).state 3).Scanning config latest :=
  ⟨rfl, ⟨⟨2, rfl⟩, rfl⟩, rfl, rfl⟩

/-- The clock stands still during the first moves. -/
theorem standing_timely (hmoves : ∀ m ∈ moves, ∀ now ∈ m.now?, now = 0)
    (h : ∀ n, 4 ≤ n → n < moves.length + 4 →
      ((standing config latest moves).state n).daemon.commons.Standing latest) :
    (standing config latest moves).Timely latest := by
  have hbegun (n : ℕ) (hn : n < 4) :
      ((standing config latest moves).state n).daemon.commons.Standing latest := by
    interval_cases n <;> exact ⟨⟨_, rfl⟩, rfl⟩
  intro n now hnow
  rcases lt_or_ge n 4 with hn | hn
  · have hzero : now = 0 := by
      interval_cases n <;> exact (Option.some.inj hnow).symm
    exact hzero ▸ (hbegun n hn).time_le
  · obtain ⟨k, rfl⟩ := Nat.exists_eq_add_of_le' hn
    have hmove : (standing config latest moves).move (k + 4) = moves.getD k (.elsewhere id) := rfl
    rw [hmove] at hnow
    rcases lt_or_ge k moves.length with hk | hk
    · rw [List.getD_eq_getElem _ _ hk] at hnow
      exact hmoves _ (List.getElem_mem hk) now hnow ▸ (h (k + 4) hn (by omega)).time_le
    · rw [List.getD_eq_default _ _ hk] at hnow
      cases hnow

/-- With the third round trip of the first scan the daemon is launched, if the period of the
heartbeat can be computed. -/
theorem standing_launches {period : Duration}
    (hperiod : config.settings.highWater.healthCheck = .ok period) :
    ((standing config latest moves).state 4).Launched config latest period := by
  have hnext : (standing config latest moves).state 4 =
      ((standing config latest moves).state 3).perform (.call 0) := rfl
  rw [hnext]
  exact (standing_scans config latest moves).launches hperiod

end LifeCourse

/-! ### What a course shows -/

namespace LifeCourse.Upheld

variable {x : LifeCourse MemoryLog ScriptedProjection} (hx : x.Upheld) {config : Config.Daemon}
  {latest : Timestamp} {period : Duration} {n : ℕ}

include hx

/-- A loop that is not being stopped ends only with a scan. -/
theorem scan {polling : Config.Polling} {stage : LoopStage}
    (h : (x.state n).Looping polling latest stage) (hm : x.move n = .task 0 (.agent (.loop 0)))
    (hstep : ∀ d c, d.config = polling → Commons.Standing latest c →
      (DetectionLoop.step ⟨stage, 1⟩ d c 0).1 = none) :
    ∃ scan ∈ stage.scan?, scan.GoesWrong (x.state n).daemon.commons 0 ∨
      stage = .bootstrapping scan ∧ scan.Fails (x.state n).daemon.commons 0 := by
  obtain ⟨halive, hdead⟩ := h.ends hstep
  rw [← hm] at hdead
  obtain ⟨now, l, hm', hl, hexcused⟩ := hx.loops n 0 halive hdead
  have hloop : l = ⟨stage, 1⟩ := by
    rw [agent, h.loops] at hl
    exact (Option.some.inj hl).symm
  rw [hm] at hm'
  cases hm'
  subst hloop
  exact hexcused.resolve_left (by simp [agent, h.stopping])

/-- The period of the heartbeat can be computed. -/
theorem healthCheck (h : (x.state n).Scanning config latest) (hm : x.move n = .call 0) :
    ∃ period, config.settings.highWater.healthCheck = .ok period := by
  cases hcheck : config.settings.highWater.healthCheck with
  | ok period => exact ⟨period, rfl⟩
  | error cause =>
    have hcrashed := h.crashes hcheck
    rw [← hm] at hcrashed
    obtain ⟨now, hmove, hexcused⟩ := hx.start n (by simp [Lifetime.HasCrashed, h.call,
      AgentCall.HasCrashed]) hcrashed
    cases hm.symm.trans hmove
    exact absurd hexcused h.not_excused

/-- The heartbeat has a period. -/
theorem period_ne_zero (h : (x.state n).Launched config latest period)
    (hm : x.move n = .task 0 (.agent .heartbeat)) : period ≠ .zero := by
  rintro rfl
  obtain ⟨hbeat, hrunning⟩ := h.ends
  rw [← hm] at hbeat hrunning
  obtain ⟨beat, hsome, hended⟩ := hx.heartbeat (n + 1) hrunning
  cases hbeat.symm.trans hsome
  cases hended

/-- The delays of a loop can be computed. -/
theorem rhythm (h : (x.state n).Launched config latest period)
    (hm : x.move n = .task 0 (.agent (.loop 0))) :
    ∃ rhythm, config.settings.highWater.rhythm = .ok rhythm := by
  cases hrhythm : config.settings.highWater.rhythm with
  | ok rhythm => exact ⟨rhythm, rfl⟩
  | error cause =>
    obtain ⟨scan, hscan, -⟩ := hx.scan h.toLooping hm fun d c hd _ => by
      have hdelays : d.rhythm = .error cause := by rw [← hrhythm, ← hd]; rfl
      simp only [DetectionLoop.step, hdelays]
    cases hscan

/-- There is a time behind the leading edge. -/
theorem harbor {polling : Config.Polling} {rhythm : Rhythm}
    (h : (x.state n).Looping polling latest (.running (.standing latest) rhythm
      (.detecting ⟨.measuring (.standing latest), false, 0, 0⟩)))
    (hm : x.move n = .task 0 (.agent (.loop 0))) :
    ∃ harbor, latest.plus rhythm.leadingEdge = .ok harbor := by
  by_contra hnone
  obtain ⟨scan, hscan, hwrong | ⟨hstage, -⟩⟩ := hx.scan h hm fun d _ _ hc =>
    Lifetime.step_of_overflow hnone d hc
  · cases hscan
    exact h.commons.not_goesWrong hwrong
  · cases hstage

/-- The delays between attempts can be computed, and the places of the queue and the slots can be
counted. -/
theorem retry (h : (x.state n).Launched config latest period) (hm : x.move n = .call 0) :
    (∃ schedule, config.settings.retry.schedule = .ok schedule) ∧
      config.settings.retry.queueCapacity ≤ maxPermits ∧
        config.settings.retry.maxConcurrency ≤ maxPermits := by
  rw [← Supervisor.new_isOk_iff]
  by_contra herror
  have hcrashed := h.crashes herror
  rw [← hm] at hcrashed
  -- The first scan has ended, so nothing can go wrong with it any more.
  obtain ⟨now, -, hexcused⟩ := hx.start n (by simp [Lifetime.HasCrashed, h.call,
    AgentCall.HasCrashed]) hcrashed
  simp [Lifetime.Excused, h.call, AgentCall.Excused] at hexcused

end LifeCourse.Upheld

namespace LifeCourse

variable {config : Config.Daemon} {latest : Timestamp}

/-- Settings that bring nothing down where the mark stands still can be borne. -/
theorem bearable_of_upheld (h : ∀ moves, (standing config latest moves).Timely latest →
    (standing config latest moves).Upheld) : config.Bearable latest := by
  have hbegun : (standing config latest []).Upheld :=
    h [] (standing_timely config latest [] (by simp) fun n hn hlt => absurd hn (not_le.mpr hlt))
  obtain ⟨period, hperiod⟩ := hbegun.healthCheck (standing_scans config latest []) rfl
  have hlaunched (moves) := standing_launches config latest moves hperiod
  have hx (m) (hm : ∀ now ∈ m.now?, now = 0) : (standing config latest [m]).Upheld := by
    refine h [m] (standing_timely config latest [m] (by simpa using hm) fun n hn hlt => ?_)
    obtain rfl : n = 4 := Nat.le_antisymm (Nat.lt_succ_iff.mp hlt) hn
    exact (hlaunched [m]).commons
  have hzero := (hx (.task 0 (.agent .heartbeat)) (by simp [LifeMove.now?])).period_ne_zero
    (hlaunched _) rfl
  obtain ⟨rhythm, hrhythm⟩ := (hx (.task 0 (.agent (.loop 0))) (by simp [LifeMove.now?])).rhythm
    (hlaunched _) rfl
  obtain ⟨hschedule, hcapacity, hconcurrency⟩ := (hx (.call 0) (by simp [LifeMove.now?])).retry
    (hlaunched _) rfl
  -- With the fourth step after the launch the loop finds that the mark stands still.
  let loops : List (LifeMove MemoryLog ScriptedProjection) :=
    .replicate 4 (.task 0 (.agent (.loop 0)))
  have hopened : ((standing config latest loops).state 5).Looping _ latest _ :=
    (hlaunched loops).toLooping.opens hrhythm
  have hread : ((standing config latest loops).state 6).Looping _ latest _ :=
    hopened.detects fun c => Commons.Standing.reading
  have hscanned : ((standing config latest loops).state 7).Looping _ latest _ :=
    hread.detects fun c => Commons.Standing.scanning
  have hupheld : (standing config latest loops).Upheld := by
    refine h loops (standing_timely config latest loops (by simp [loops, LifeMove.now?])
      fun n hn hlt => ?_)
    have hlt : n < 8 := by simpa [loops] using hlt
    interval_cases n
    · exact (hlaunched loops).commons
    · exact hopened.commons
    · exact hread.commons
    · exact hscanned.commons
  exact ⟨⟨⟨period, hperiod, hzero⟩, rhythm, hrhythm, hupheld.harbor hscanned rfl⟩, hschedule,
    hcapacity, hconcurrency⟩

/-- What a daemon sets off lasts, in whatever course, exactly if its settings can be borne. -/
theorem upheld_iff (config : Config.Daemon) (latest : Timestamp) :
    (∀ (L π : Type) [EventLog L] [TimelyLog L] [Projection π] (x : LifeCourse L π),
      x.config = config → x.Timely latest → x.Upheld) ↔ config.Bearable latest := by
  constructor
  · intro h
    exact bearable_of_upheld fun moves => h _ _ (standing config latest moves) rfl
  · rintro hb L π _ _ _ x rfl hx
    exact upheld_of_bearable hb hx

/-! ## Rehearsals -/

/-- A step of the heartbeat leaves the clock of the world alone. -/
theorem origin_beat {L π : Type} [EventLog L] [Projection π] (x : Lifetime L π) (now : Moment) :
    (x.perform (.task now (.agent .heartbeat))).daemon.commons.origin =
      x.daemon.commons.origin := by
  show (x.daemon.agent.stepHeartbeat x.daemon.commons now).2.origin = _
  have hbeaten := x.daemon.agent.beaten_stepHeartbeat x.daemon.commons now
  generalize x.daemon.agent.stepHeartbeat x.daemon.commons now = out at hbeaten ⊢
  cases hbeaten <;> rfl

section Beats

variable {L π : Type} [EventLog L] [Projection π] {x : LifeCourse L π} {k : ℕ} {beat : Moment}

omit [EventLog L] [Projection π] in
/-- If the heartbeat takes step after step from some move on, then it takes steps again and again.
-/
theorem served_of_beats (hbeats : ∀ n ≥ k, x.move n = .task beat (.agent .heartbeat)) :
    x.Served := fun n => ⟨n + k, by omega, by rw [hbeats _ (by omega)]; rfl⟩

/-- If the heartbeat takes step after step from some move on, all at one moment, then the clock goes
no further than at the moves before and at that moment. -/
theorem timely_of_beats (hbeats : ∀ n ≥ k, x.move n = .task beat (.agent .heartbeat))
    (hbefore : ∀ n < k, ∀ now ∈ (x.move n).now?, (x.state n).daemon.commons.time now ≤ latest)
    (hbeat : (x.state k).daemon.commons.time beat ≤ latest) : x.Timely latest := by
  have horigin (n : ℕ) (hn : k ≤ n) :
      (x.state n).daemon.commons.origin = (x.state k).daemon.commons.origin := by
    induction n, hn using Nat.le_induction with
    | base => rfl
    | succ n hn ih => rw [state, hbeats n hn, origin_beat, ih]
  intro n now hnow
  rcases lt_or_ge n k with hn | hn
  · exact hbefore n hn now hnow
  · rw [hbeats n hn] at hnow
    rw [← Option.some.inj hnow, Commons.time, horigin n hn]
    exact hbeat

end Beats

/-- A daemon is started, and its loop dies. -/
def losing : List (LifeMove FaultyLog ScriptedProjection) :=
  [.start 0, .call 0, .call 0,
    .elsewhere fun d => { d with commons := { d.commons with log := { crashReads := 1 } } },
    .task 0 (.agent (.loop 0)), .task 0 (.agent (.loop 0))]

/-- A daemon with the default settings loses its loop, and the heartbeat takes step after step, the
first one at once and the next one after five seconds. -/
def attended : LifeCourse FaultyLog ScriptedProjection :=
  .ofMoves {} {} ⟨0, false⟩ (losing ++ [.task 0 (.agent .heartbeat)])
    (.task 5000000000 (.agent .heartbeat))

/-- The default settings can be borne. -/
theorem bearable_default : Config.Daemon.Bearable {} ⟨5000000000, false⟩ :=
  ⟨⟨⟨_, rfl, by decide⟩, ⟨_, rfl, _, rfl⟩⟩, ⟨_, rfl⟩, by decide, by decide⟩

/-- The loop has died, and is replaced with the next beat. Nothing else comes down, as the default
settings can be borne. -/
theorem upheld_in_rehearsal : ∃ (x : LifeCourse FaultyLog ScriptedProjection) (n : ℕ),
    x.config = {} ∧ x.Timely ⟨5000000000, false⟩ ∧ x.Served ∧ x.Upheld ∧
      (x.agent n).isRunning = true ∧ (x.agent n).isDead = true ∧
        (x.agent (n + 1)).isDead = false ∧ (x.agent (n + 1)).restarts = 1 := by
  have hbeats (n : ℕ) (hn : n ≥ 7) : attended.move n = .task 5000000000 (.agent .heartbeat) :=
    List.getD_eq_default _ _ hn
  have htimely : attended.Timely ⟨5000000000, false⟩ := by
    refine timely_of_beats hbeats (fun n hn now hnow => ?_) (by decide +kernel)
    interval_cases n <;> cases hnow <;> decide +kernel
  have hupheld : attended.Upheld :=
    (upheld_iff {} ⟨5000000000, false⟩).mpr bearable_default _ _ attended rfl htimely
  exact ⟨attended, 7, rfl, htimely, served_of_beats hbeats, hupheld, by decide +kernel,
    by decide +kernel, by decide +kernel, by decide +kernel⟩

/-- A heartbeat that has ended because its period is zero does nothing more. -/
theorem perform_of_ended {L π : Type} [EventLog L] [Projection π] {x : Lifetime L π} {seen : ℕ}
    (h : x.daemon.agent.heartbeat = some ⟨.zero, seen, none, true⟩) (now : Moment) :
    x.perform (.task now (.agent .heartbeat)) = x := by
  simp only [Lifetime.perform, Daemon.step, Agent.step, Agent.stepHeartbeat, h, if_true]
  rw [← h]

/-- A daemon whose heartbeat has a period of zero loses its loop, and the heartbeat takes step after
step. -/
def unattended : LifeCourse FaultyLog ScriptedProjection :=
  .ofMoves { settings := { highWater := { healthCheckPollingTime := "0s" } } } {} ⟨0, false⟩ losing
    (.task 0 (.agent .heartbeat))

/-- The daemon is running and its heartbeat takes steps again and again, but the loop is dead and
nothing ever replaces it. -/
theorem exists_dead_for_good : ∃ (x : LifeCourse FaultyLog ScriptedProjection) (n : ℕ),
    x.Timely x.origin ∧ x.Served ∧ ∀ m ≥ n, (x.state m).daemon.isRunning = true ∧
      (x.agent m).isRunning = true ∧ (x.agent m).isDead = true ∧ (x.agent m).restarts = 0 := by
  have hbeats (n : ℕ) (hn : n ≥ 6) : unattended.move n = .task 0 (.agent .heartbeat) :=
    List.getD_eq_default _ _ hn
  -- The heartbeat ends with its first step, and nothing changes any more.
  have hsame (m : ℕ) (hm : 7 ≤ m) : unattended.state m = unattended.state 7 := by
    induction m, hm using Nat.le_induction with
    | base => rfl
    | succ m hm ih =>
      have hended : (unattended.agent 7).heartbeat = some ⟨.zero, 1, none, true⟩ := by
        decide +kernel
      rw [state, hbeats m (by omega), ih]
      exact perform_of_ended hended 0
  have htimely : unattended.Timely unattended.origin := by
    refine timely_of_beats hbeats (fun n hn now hnow => ?_) (by decide +kernel)
    interval_cases n <;> cases hnow <;> decide +kernel
  refine ⟨unattended, 7, htimely, served_of_beats hbeats, fun m hm => ?_⟩
  rw [agent, hsame m hm]
  decide +kernel

end LifeCourse

end Tidemark
