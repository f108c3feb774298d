import Tidemark.Daemon.Call
import Tidemark.Proofs.HighWater.Single
import Tidemark.Proofs.Shard.Recording

/-!
# What a daemon does to the marks

Detection advances the high water mark on record and the published mark, and nothing else
(`Daemon.Sound.detects`). All the rest of a daemon leaves both as they are, and leaves no progress
above the mark on record (`Tends`). So a daemon goes on sound with every step of its tasks and of
its calls (`Daemon.Goes`). A daemon is launched no more than once, so that its agent is not started
while a loop of it is there (`DaemonCall.Sound`).
-/

namespace Tidemark

open LogView

variable {L π : Type}

/-! ## What a daemon does besides detection -/

/-- The published mark and what the consumers are to record do not lie above a position, and
progress is recorded under the identities of shards. -/
structure Daemon.Backed (row : Position) (d : Daemon L π) : Prop where
  mark : d.highWaterMark ≤ row
  named : ∀ s, d.supervisor = some s → s.shards.Named
  consumers : ∀ c ∈ d.consumers, c.Backed row

/-- A daemon stays backed as the mark on record goes up. -/
theorem Daemon.Backed.mono {row row' : Position} {d : Daemon L π} (h : d.Backed row)
    (hrow : row ≤ row') : d.Backed row' :=
  ⟨le_trans h.mark hrow, h.named, fun c hc => (h.consumers c hc).mono hrow⟩

/-- What a daemon does besides detection: no progress comes to lie above the high water mark on
record, and the mark stays as it is. -/
structure Tends [LogView L] (d d' : Daemon L π) : Prop where
  log : LogView.Backed d'.commons.log
  row : highWater d'.commons.log = highWater d.commons.log
  backed : d'.Backed (highWater d.commons.log)
  agent : d'.agent = d.agent
  created : d'.state = .created → d.state = .created
  unlaunched : d.supervisor = none → d'.supervisor = none ∧ d'.projections = d.projections

/-- The same progress is on record in two logs. -/
structure SameProgress [LogView L] (log log' : L) : Prop where
  kept : Kept log → Kept log'
  recorded : recorded log' = recorded log

section

variable [LogView L] {d d' : Daemon L π}

/-- The same progress is on record in a log as in itself. -/
theorem SameProgress.refl (log : L) : SameProgress log log := ⟨id, rfl⟩

/-- Changes that concern neither progress nor the published mark, nor the names of handles. -/
theorem Daemon.Backed.tends (hd : d.Backed (highWater d.commons.log))
    (hlog : LogView.Backed d.commons.log) (hsame : SameProgress d.commons.log d'.commons.log)
    (hmark : d'.highWaterMark = d.highWaterMark) (hconsumers : d'.consumers = d.consumers)
    (hprojections : d'.projections = d.projections) (hagent : d'.agent = d.agent)
    (hcreated : d'.state = .created → d.state = .created)
    (hsupervisor : ∀ s', d'.supervisor = some s' →
      ∃ s, d.supervisor = some s ∧ (s.shards.Named → s'.shards.Named)) : Tends d d' := by
  have hrow : highWater d'.commons.log = highWater d.commons.log := by
    rw [highWater, hsame.recorded, highWater]
  refine ⟨⟨hsame.kept hlog.kept, fun i => ?_⟩, hrow,
    ⟨hmark ▸ hd.mark, fun s' hs' => ?_, hconsumers ▸ hd.consumers⟩, hagent, hcreated,
    fun hnone => ⟨?_, hprojections⟩⟩
  · rw [hrow, hsame.recorded]
    exact hlog.rows i
  · obtain ⟨s, hs, hnamed⟩ := hsupervisor s' hs'
    exact hnamed (hd.named s hs)
  · cases hs' : d'.supervisor with
    | none => rfl
    | some s' =>
      obtain ⟨s, hs, -⟩ := hsupervisor s' hs'
      rw [hnone] at hs
      cases hs

/-- Changes that concern neither progress nor the published mark, nor any handle. -/
theorem Daemon.Backed.tends_of_supervisor (hd : d.Backed (highWater d.commons.log))
    (hlog : LogView.Backed d.commons.log) (hsame : SameProgress d.commons.log d'.commons.log)
    (hmark : d'.highWaterMark = d.highWaterMark) (hconsumers : d'.consumers = d.consumers)
    (hprojections : d'.projections = d.projections) (hagent : d'.agent = d.agent)
    (hcreated : d'.state = .created → d.state = .created)
    (hsupervisor : d'.supervisor = d.supervisor) : Tends d d' :=
  hd.tends hlog hsame hmark hconsumers hprojections hagent hcreated fun s hs =>
    ⟨s, hsupervisor ▸ hs, id⟩

/-- Doing nothing. -/
theorem Daemon.Backed.tends_refl (hd : d.Backed (highWater d.commons.log))
    (hlog : LogView.Backed d.commons.log) : Tends d d :=
  hd.tends_of_supervisor hlog (.refl _) rfl rfl rfl rfl id rfl

end

namespace Daemon

variable [EventLog L] [DetectedLog L] [Projection π] {d : Daemon L π}

/-- A step of a consumer. -/
theorem Backed.stepConsumer_tends (hd : d.Backed (highWater d.commons.log))
    (hlog : LogView.Backed d.commons.log) (now : Moment) (k : ℕ) :
    Tends d (d.stepConsumer now k) := by
  unfold stepConsumer
  split
  · next s c p hs hc hp =>
    have hmem : c ∈ d.consumers := List.mem_of_getElem? hc
    obtain ⟨hconsumer, hbacked, hrow, hmark⟩ := Consumer.step_backed (hd.consumers c hmem)
      (s := d.surroundings s) ⟨hlog, hd.mark, hd.named s hs⟩ p now
    refine ⟨hbacked.log, hrow, ⟨le_trans hmark.le hd.mark, fun s' hs' => ?_, fun c' hc' => ?_⟩, rfl,
      id, fun hnone => ?_⟩
    · obtain rfl := Option.some.inj hs'
      exact hbacked.named
    · rcases List.mem_or_eq_of_mem_set hc' with hold | rfl
      · exact hd.consumers c' hold
      · exact hconsumer
    · rw [hs] at hnone
      cases hnone
  · exact hd.tends_refl hlog

/-- A step of a task that does not belong to the agent. -/
theorem Backed.step_tends (hd : d.Backed (highWater d.commons.log))
    (hlog : LogView.Backed d.commons.log) (now : Moment) {task : DaemonTask}
    (htask : ∀ t, task ≠ .agent t) : Tends d (d.step now task) := by
  cases task with
  | agent t => exact absurd rfl (htask t)
  | consumer k => exact hd.stepConsumer_tends hlog now k
  | dispatcher =>
    refine hd.tends hlog (.refl _) rfl rfl rfl rfl id fun s' hs' => ?_
    obtain ⟨s, hs, rfl⟩ := Option.map_eq_some_iff.mp hs'
    exact ⟨s, hs, id⟩
  | worker k =>
    simp only [step]
    split
    · next s hs =>
      refine hd.tends hlog (.refl _) rfl rfl rfl rfl id fun s' hs' => ⟨s, hs, fun hnamed i => ?_⟩
      obtain rfl := Option.some.inj hs'
      rw [Supervisor.shards_stepWorker]
      split
      · rw [Supervisor.name_obeyed]
        exact hnamed i
      · exact hnamed i
    · exact hd.tends_refl hlog

omit [EventLog L] [DetectedLog L] [Projection π] in
/-- Someone begins to report a failure. -/
theorem Backed.report_tends [LogView L] (hd : d.Backed (highWater d.commons.log))
    (hlog : LogView.Backed d.commons.log) (shard : ShardName) (e : Failure) :
    Tends d (d.report shard e).2 := by
  unfold report
  split
  · exact hd.tends_refl hlog
  · next s hs =>
    refine hd.tends hlog (.refl _) rfl rfl rfl rfl id fun s' hs' => ⟨s, hs, fun hnamed i => ?_⟩
    obtain rfl := Option.some.inj hs'
    exact ((d.surroundings s).keeps_report i shard.identity e).name.trans (hnamed i)

/-- Someone goes on reporting a failure. -/
theorem Backed.reporting_tends (hd : d.Backed (highWater d.commons.log))
    (hlog : LogView.Backed d.commons.log) (r : Reporting) (now : Moment) :
    Tends d (DaemonCall.step (.reporting r) d now).2 := by
  cases r with
  | done outcome => exact hd.tends_refl hlog
  | posting k present =>
    simp only [DaemonCall.step]
    split
    · exact hd.tends_refl hlog
    · next s hs =>
      refine hd.tends hlog (.refl _) rfl rfl rfl rfl id fun s' hs' => ⟨s, hs, fun hnamed i => ?_⟩
      obtain rfl := Option.some.inj hs'
      exact ((d.surroundings s).keeps_reporting i (.posting k present) now).name.trans (hnamed i)

omit [EventLog L] [DetectedLog L] [Projection π] in
/-- The consumers are told to end or not, and waited for. -/
theorem Backed.join_tends [LogView L] (hd : d.Backed (highWater d.commons.log))
    (hlog : LogView.Backed d.commons.log) (shutdown : Bool) (now : Moment) (k : ℕ) :
    Tends d ({ d with shutdown := shutdown }.join now k).2 := by
  unfold join
  split_ifs
  · exact hd.tends_of_supervisor hlog (.refl _) rfl rfl rfl rfl id rfl
  · refine hd.tends hlog (.refl _) rfl rfl rfl rfl id fun s' hs' => ?_
    obtain ⟨s, hs, rfl⟩ := Option.map_eq_some_iff.mp hs'
    exact ⟨s, hs, id⟩

end Daemon

/-! ## Sound daemons -/

section

variable [EventLog L] [DetectedLog L] [Projection π] {d d' : Daemon L π} {call : Option DaemonCall}

/-- The consumers have not been set off, and no projection consumes as the high water mark. -/
structure Daemon.Unlaunched (d : Daemon L π) : Prop where
  supervisor : d.supervisor = none
  names : ∀ p ∈ d.projections, (Projection.shardName p).isHighWater = false

/-- What holds of a daemon at any time. -/
structure Daemon.Sound (d : Daemon L π) : Prop where
  log : LogView.Backed d.commons.log
  backed : d.Backed (highWater d.commons.log)
  agent : d.agent.Sound (highWater d.commons.log)
  created : d.state = .created → d.agent.Idle ∧ d.Unlaunched

/-- What holds while a daemon is called. -/
def DaemonCall.Sound (d : Daemon L π) : DaemonCall → Prop
  | .starting a =>
    d.state ≠ .created ∧ d.Unlaunched ∧ a.Sound (highWater d.commons.log) d.agent
  | .stopping a => d.state ≠ .created ∧ a.Sound (highWater d.commons.log) d.agent
  | _ => True

/-- A sound daemon goes on sound, with its call, and the mark on record does not go down. -/
structure Daemon.Goes (d : Daemon L π) (call : Option DaemonCall) (d' : Daemon L π) : Prop where
  sound : d'.Sound
  call : ∀ c, call = some c → c.Sound d'
  row : highWater d.commons.log ≤ highWater d'.commons.log

/-- A sound daemon goes on with a sound call. -/
theorem Daemon.Goes.of_call {call : DaemonCall} (hd : d'.Sound) (hcall : call.Sound d')
    (hrow : highWater d.commons.log ≤ highWater d'.commons.log) : d.Goes (some call) d' :=
  ⟨hd, fun _ hc => Option.some.inj hc ▸ hcall, hrow⟩

/-! ### Besides detection -/

omit [EventLog L] [DetectedLog L] in
/-- A daemon is not launched by what it does besides detection. -/
theorem Tends.unlaunched_of [LogView L] (h : Tends d d') (hd : d.Unlaunched) : d'.Unlaunched := by
  obtain ⟨hnone, hprojections⟩ := h.unlaunched hd.supervisor
  exact ⟨hnone, hprojections ▸ hd.names⟩

/-- A daemon goes on sound with all that it does besides detection. -/
theorem Tends.goes (h : Tends d d') (hd : d.Sound) (hcall : ∀ c, call = some c → c.Sound d) :
    d.Goes call d' := by
  refine ⟨⟨h.log, h.row ▸ h.backed, ?_, fun hcreated => ?_⟩, fun c hc => ?_, h.row.ge⟩
  · rw [h.agent, h.row]
    exact hd.agent
  · obtain ⟨hidle, hunlaunched⟩ := hd.created (h.created hcreated)
    exact ⟨h.agent ▸ hidle, h.unlaunched_of hunlaunched⟩
  · -- Only a call that starts or stops the agent asks for anything.
    have hc := hcall c hc
    cases c with
    | starting a =>
      obtain ⟨hstate, hunlaunched, ha⟩ := hc
      exact ⟨fun hcreated => hstate (h.created hcreated), h.unlaunched_of hunlaunched,
        h.row ▸ h.agent ▸ ha⟩
    | stopping a => exact ⟨fun hcreated => hc.1 (h.created hcreated), h.row ▸ h.agent ▸ hc.2⟩
    | _ => trivial

/-! ### Detection -/

/-- A daemon is sound after its agent has advanced the mark. -/
theorem Daemon.Sound.detects (hd : d.Sound) {a : Agent} {c : Commons L}
    (h : Agent.Goes d.commons (a, c)) (hidle : d.state = .created → a.Idle) :
    { d with agent := a, commons := c }.Sound := by
  have hrow : highWater d.commons.log ≤ highWater c.log := h.advance.recorded
  have hbacked := hd.backed.mono hrow
  refine ⟨⟨h.advance.kept hd.log.kept, fun i => ?_⟩, ⟨?_, hbacked.named, hbacked.consumers⟩,
    h.sound, fun hcreated => ⟨hidle hcreated, ?_⟩⟩
  · by_cases hi : i = ShardName.highWater.identity
    · rw [hi]
      exact le_refl _
    · rw [h.advance.others i hi]
      exact le_trans (hd.log.rows i) hrow
  · -- What is published now was published before, or is the mark on record.
    exact le_trans h.advance.durable (max_le hbacked.mark (le_refl _))
  · obtain ⟨hnone, hnames⟩ := (hd.created hcreated).2
    exact ⟨hnone, hnames⟩

/-- A daemon goes on sound with a step of a task. -/
theorem Daemon.Sound.step_goes (hd : d.Sound) (hcall : ∀ c, call = some c → c.Sound d)
    (now : Moment) (task : DaemonTask) : d.Goes call (d.step now task) := by
  cases task with
  | agent t =>
    have h := d.agent.step_goes d.commons now hd.agent hd.log.nonneg t
    refine ⟨hd.detects h fun hcreated => ?_, fun c hc => ?_, h.advance.recorded⟩
    · -- Before the start the agent has no tasks that could take a step.
      have hidle := (hd.created hcreated).1
      show (d.agent.step d.commons now t).1.Idle
      rw [hidle.step_eq]
      exact hidle
    · have hc := hcall c hc
      cases c with
      | starting a =>
        obtain ⟨hstate, ⟨hnone, hnames⟩, ha⟩ := hc
        exact ⟨hstate, ⟨hnone, hnames⟩, ha.agent_step now t⟩
      | stopping a => exact ⟨hc.1, hc.2.agent_step now t⟩
      | _ => trivial
  | consumer k => exact (hd.backed.stepConsumer_tends hd.log now k).goes hd hcall
  | dispatcher => exact (hd.backed.step_tends hd.log now fun _ => by nofun).goes hd hcall
  | worker k => exact (hd.backed.step_tends hd.log now fun _ => by nofun).goes hd hcall

/-! ### Calls -/

/-- A sound daemon is sound in any state but the first. -/
theorem Daemon.Sound.enter (hd : d.Sound) (state : DaemonState) (hstate : state ≠ .created) :
    (d.enter state).Sound :=
  ⟨hd.log, ⟨hd.backed.mark, hd.backed.named, hd.backed.consumers⟩, hd.agent,
    fun hcreated => absurd hcreated hstate⟩

/-- A sound daemon that enters a state and gives a signal to its agent is sound. -/
theorem Daemon.Sound.signals (hd : d.Sound) (state : DaemonState) (hstate : state ≠ .created)
    (stopping : Watched Bool) :
    { d.enter state with agent := { d.agent with detection :=
      { d.agent.detection with stopping := stopping } } }.Sound := by
  obtain ⟨hlog, hbacked, hagent, hcreated⟩ := hd.enter state hstate
  exact ⟨hlog, ⟨hbacked.mark, hbacked.named, hbacked.consumers⟩,
    hagent.of_loops rfl fun hsome => ⟨hsome, rfl⟩, fun hstate' => absurd hstate' hstate⟩

/-- A daemon that begins to be started. -/
theorem Daemon.Sound.start_goes (hd : d.Sound) (now : Moment) :
    d.Goes (some (d.start now).1) (d.start now).2 := by
  unfold start requireCreated
  split_ifs with hcreated
  · obtain ⟨hidle, ⟨hnone, hnames⟩⟩ := hd.created hcreated
    have hresting : ¬ (d.enter .starting).agent.heartbeat.isSome := by
      simp [Daemon.enter, hidle.heartbeat]
    simp only [Agent.start, if_neg hresting]
    exact .of_call (hd.signals .starting (by decide) _)
      ⟨nofun, ⟨hnone, hnames⟩, ⟨hidle.loops, hidle.heartbeat⟩, trivial⟩ (le_refl _)
  · exact .of_call hd trivial (le_refl _)

/-- A daemon whose consumers are set off. -/
theorem Daemon.Sound.launch (hd : d.Sound) (hstate : d.state ≠ .created) (hu : d.Unlaunched)
    (found : Statistics) :
    (d.launch found).2.Sound ∧ (d.launch found).2.commons.log = d.commons.log := by
  unfold Daemon.launch
  dsimp only
  split
  · exact ⟨⟨hd.log, ⟨hd.backed.mark, hd.backed.named, hd.backed.consumers⟩, hd.agent,
      fun hcreated => absurd hcreated hstate⟩, rfl⟩
  · next s hs =>
    obtain ⟨commands, -, hs⟩ := bind_eq_ok.mp hs
    obtain rfl := Except.ok.inj hs
    refine ⟨⟨hd.log, ⟨hd.backed.mark, fun s' hs' => ?_, fun c hc => ?_⟩, hd.agent, nofun⟩, rfl⟩
    · obtain rfl := Option.some.inj hs'
      exact Registry.named_ofNames _
    · -- Every consumer begins with nothing to record.
      obtain ⟨name, hname, rfl⟩ := List.mem_map.mp hc
      obtain ⟨p, hp, rfl⟩ := List.mem_map.mp hname
      exact ⟨trivial, trivial, trivial, trivial, ShardName.identity_ne_highWater (hu.names p hp)⟩

/-- A daemon that begins to be shut down. -/
theorem Daemon.Sound.beginShutdown_goes (hd : d.Sound) :
    d.Goes (some d.beginShutdown.1) d.beginShutdown.2 := by
  unfold beginShutdown
  split
  · exact .of_call hd trivial (le_refl _)
  · exact .of_call (hd.enter .stopped (by decide)) trivial (le_refl _)
  · exact .of_call (hd.signals .shuttingDown (by decide) _) ⟨nofun, trivial⟩ (le_refl _)

/-- A step of the call that starts or stops the agent of a sound daemon. -/
theorem Daemon.Sound.agentCall (hd : d.Sound) (hstate : d.state ≠ .created) {a : AgentCall}
    (ha : a.Sound (highWater d.commons.log) d.agent) (now : Moment) :
    let out := a.step d.agent d.commons now
    { d with agent := out.2.1, commons := out.2.2 }.Sound ∧
      out.1.Sound (highWater out.2.2.log) out.2.1 ∧
        highWater d.commons.log ≤ highWater out.2.2.log := by
  obtain ⟨hgoes, hsound⟩ := AgentCall.step_goes ha hd.agent hd.log.nonneg now
  exact ⟨hd.detects hgoes fun hcreated => absurd hcreated hstate, hsound, hgoes.advance.recorded⟩

omit [DetectedLog L] in
/-- While the agent is being started, a step of the daemon's call is one of the agent's. -/
theorem DaemonCall.step_starting {a : AgentCall} (h : ∀ outcome, a ≠ .started outcome)
    (d : Daemon L π) (now : Moment) :
    (DaemonCall.starting a).step d now =
      (.starting (a.step d.agent d.commons now).1,
        { d with agent := (a.step d.agent d.commons now).2.1,
                 commons := (a.step d.agent d.commons now).2.2 }) := by
  cases a with
  | started outcome => exact absurd rfl (h outcome)
  | _ => rfl

omit [DetectedLog L] in
/-- While the agent is being stopped, a step of the daemon's call is one of the agent's. -/
theorem DaemonCall.step_stopping {a : AgentCall} (h : a ≠ .stopped) (d : Daemon L π)
    (now : Moment) :
    (DaemonCall.stopping a).step d now =
      (.stopping (a.step d.agent d.commons now).1,
        { d with agent := (a.step d.agent d.commons now).2.1,
                 commons := (a.step d.agent d.commons now).2.2 }) := by
  cases a with
  | stopped => exact absurd rfl h
  | _ => rfl

/-- A daemon goes on sound with a step of its call. -/
theorem DaemonCall.step_goes {call : DaemonCall} (hd : d.Sound) (hcall : call.Sound d)
    (now : Moment) : d.Goes (some (call.step d now).1) (call.step d now).2 := by
  -- Besides detection it is enough that nothing is asked of the call afterwards.
  have htends {call' : DaemonCall} {d' : Daemon L π} (h : Tends d d') (hcall' : call'.Sound d') :
      d.Goes (some call') d' := by
    have hgoes : d.Goes none d' := h.goes hd (by simp)
    exact .of_call hgoes.sound hcall' hgoes.row
  have hjoin (shutdown : Bool) (k : ℕ) :
      d.Goes (some ({ d with shutdown := shutdown }.join now k).1)
        ({ d with shutdown := shutdown }.join now k).2 := by
    refine htends (hd.backed.join_tends hd.log shutdown now k) ?_
    unfold Daemon.join
    split_ifs <;> trivial
  cases call with
  | starting a =>
    obtain ⟨hstate, hunlaunched, ha⟩ := hcall
    by_cases hstarted : ∃ outcome, a = .started outcome
    · obtain ⟨(e | cause) | found, rfl⟩ := hstarted
      · exact .of_call (hd.enter .failed (by decide)) trivial (le_refl _)
      · exact .of_call hd trivial (le_refl _)
      · obtain ⟨hlaunched, hsame⟩ := hd.launch hstate hunlaunched found
        exact .of_call hlaunched trivial (congrArg highWater hsame).ge
    · rw [step_starting (not_exists.mp hstarted)]
      obtain ⟨hsound, ha', hrow⟩ := hd.agentCall hstate ha now
      exact .of_call hsound ⟨hstate, ⟨hunlaunched.supervisor, hunlaunched.names⟩, ha'⟩ hrow
  | stopping a =>
    obtain ⟨hstate, ha⟩ := hcall
    by_cases hstopped : a = .stopped
    · subst hstopped
      exact hjoin true 0
    · rw [step_stopping hstopped]
      obtain ⟨hsound, ha', hrow⟩ := hd.agentCall hstate ha now
      exact .of_call hsound ⟨hstate, ha'⟩ hrow
  | joining k due => exact hjoin d.shutdown (k + 1)
  | draining =>
    have hsame := DetectedLog.frame_close d.commons.log
    exact htends (hd.backed.tends_of_supervisor hd.log ⟨hsame.kept, hsame.recorded⟩ rfl rfl rfl rfl
      nofun rfl) trivial
  | reporting r =>
    refine htends (hd.backed.reporting_tends hd.log r now) ?_
    cases r with
    | done outcome => trivial
    | posting k present =>
      simp only [step]
      split <;> trivial
  | started outcome => exact .of_call hd trivial (le_refl _)
  | stopped => exact .of_call hd trivial (le_refl _)
  | reported outcome => exact .of_call hd trivial (le_refl _)

/-! ### Registration -/

omit [EventLog L] [DetectedLog L] [Projection π] in
/-- What is possible before the start only is refused afterwards. -/
theorem Daemon.created_of_requireCreated {a : Unit} (h : d.requireCreated = .ok a) :
    d.state = .created := by
  unfold requireCreated at h
  split_ifs at h with hcreated
  exact hcreated

/-- A daemon goes on sound with a further projection. -/
theorem Daemon.Sound.addProjection_goes (hd : d.Sound) (hcall : ∀ c, call = some c → c.Sound d)
    {p : π} (h : d.addProjection p = .ok d') : d.Goes call d' := by
  obtain ⟨_, hrequired, h⟩ := bind_eq_ok.mp h
  have hstate := created_of_requireCreated hrequired
  obtain ⟨hidle, hnone, hnames⟩ := hd.created hstate
  simp only at h
  split_ifs at h with hreserved
  obtain rfl := Except.ok.inj h
  refine ⟨⟨hd.log, ⟨hd.backed.mark, hd.backed.named, hd.backed.consumers⟩, hd.agent, fun _ =>
    ⟨hidle, hnone, fun q hq => ?_⟩⟩, fun c hc => ?_, le_refl _⟩
  · rcases List.mem_append.mp hq with hold | hnew
    · exact hnames q hold
    · rw [List.mem_singleton.mp hnew]
      simpa using hreserved
  · -- A daemon that is started or shut down has left its first state.
    have hc := hcall c hc
    cases c with
    | starting a => exact absurd hstate hc.1
    | stopping a => exact absurd hstate hc.1
    | _ => trivial

/-- A daemon goes on sound with another policy. -/
theorem Daemon.Sound.changePolicy_goes (hd : d.Sound) (hcall : ∀ c, call = some c → c.Sound d)
    {change : Policy → Policy} (h : d.changePolicy change = .ok d') : d.Goes call d' := by
  obtain ⟨-, -, h⟩ := bind_eq_ok.mp h
  obtain rfl := Except.ok.inj h
  have htends : Tends d { d with policy := change d.policy } :=
    hd.backed.tends_of_supervisor hd.log (.refl _) rfl rfl rfl rfl id rfl
  exact htends.goes hd hcall

/-- A new daemon over a log in which no progress lies above the mark is sound. -/
theorem Daemon.sound_new {log : L} (h : LogView.Backed log) (config : Config.Daemon)
    (origin : Timestamp) :
    (Daemon.new config log origin : Daemon L π).Sound where
  log := h
  backed := ⟨h.nonneg, by simp [new], by simp [new]⟩
  agent := Agent.sound_of_loops _ rfl _
  created _ := ⟨⟨rfl, rfl⟩, rfl, by simp [new]⟩

end

end Tidemark
