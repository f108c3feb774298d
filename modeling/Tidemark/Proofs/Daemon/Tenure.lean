import Tidemark.Proofs.Daemon.Lifetime
import Tidemark.Proofs.Daemon.Posts
import Tidemark.Proofs.Daemon.Registration
import Tidemark.Proofs.HighWater.Stopping

/-!
# The tenure of a daemon

From the moment it is made on, a daemon is given projections and rules, started and shut down, and
failures are reported to it from outside, while its tasks take their steps and others change what
they share with it. Nobody takes a step who has to wait. Whoever changes the daemon, starts it or
shuts it down has it for himself, so no report is under way then. A start and a report may be given
up halfway; whoever shuts the daemon down waits for the end.

Whatever has happened, the daemon is sound (`Tenure.Sound`, `TenureCourse.sound`): the call that has
it to itself suits its state, nothing runs before it was started, and its commands are attended.
-/

namespace Tidemark

/-- A daemon, the call that has it to itself while there is one, and the reports from outside. -/
structure Tenure (L π : Type) where
  daemon : Daemon L π
  call : Option DaemonCall := none
  reports : List DaemonCall := []

/-- What happens to a daemon. -/
inductive TenureMove (L π : Type) where
  /-- A task takes a step. -/
  | task (now : Moment) (task : DaemonTask)
  /-- The heartbeat goes on with a beat for which it has looked at the stop signal before. -/
  | late (now : Moment)
  /-- Someone adds a projection. -/
  | project (p : π)
  /-- Someone changes the rules. -/
  | govern (change : Policy → Policy)
  /-- Someone begins to start the daemon. -/
  | start (now : Moment)
  /-- Someone begins to shut the daemon down. -/
  | shutdown
  /-- The call takes a step. -/
  | call (now : Moment)
  /-- The call is over, or a start is given up. -/
  | returns
  /-- Someone begins to report a failure of a shard. -/
  | report (shard : ShardName) (e : Failure)
  /-- A report takes a step. -/
  | reporting (j : ℕ) (now : Moment)
  /-- A report is over, or is given up. -/
  | withdraws (j : ℕ)
  /-- Others change what they share with the daemon. -/
  | elsewhere (commons : Commons L)

/-- The call is over, or it is a start that can be given up. -/
def DaemonCall.mayReturn : DaemonCall → Bool
  | .starting (.starting _) | .started _ | .stopped => true
  | _ => false

/-- A daemon to which a report is not carried on any more. -/
def Daemon.withdraw {L π : Type} (d : Daemon L π) (report : DaemonCall) : Daemon L π :=
  { d with supervisor := d.supervisor.map fun s =>
      { s with commands := report.post.withdraw s.commands } }

/-- Those who go on by themselves: whoever has the daemon to himself, and the tasks. -/
inductive TenureActor where
  | caller
  | task (task : DaemonTask)
  deriving DecidableEq, Inhabited

/-- Someone goes on. -/
def TenureActor.move {L π : Type} (now : Moment) : TenureActor → TenureMove L π
  | .caller => .call now
  | .task t => .task now t

namespace Tenure

variable {L π : Type}

/-- Nobody has the daemon at the moment. -/
def isFree (x : Tenure L π) : Bool := x.call.isNone && x.reports.isEmpty

/-- A daemon is free as long as there is neither a call nor a report. -/
theorem isFree_iff {x : Tenure L π} : x.isFree = true ↔ x.call = none ∧ x.reports = [] := by
  simp [isFree]

variable [EventLog L] [Projection π]

/-- The tenure goes on with a move. -/
def perform (x : Tenure L π) : TenureMove L π → Tenure L π
  | .task now task =>
    if x.daemon.wait now task = .ready then { x with daemon := x.daemon.step now task } else x
  | .late now =>
    let (agent, commons) := x.daemon.agent.lateBeat x.daemon.commons now
    { x with daemon := { x.daemon with agent := agent, commons := commons } }
  | .project p =>
    if x.isFree then { x with daemon := (x.daemon.addProjection p).toOption.getD x.daemon } else x
  | .govern change =>
    if x.isFree then { x with daemon := (x.daemon.changePolicy change).toOption.getD x.daemon }
    else x
  | .start now =>
    if x.isFree then
      let (call, d) := x.daemon.start now
      { x with daemon := d, call := some call }
    else x
  | .shutdown =>
    if x.isFree then
      let (call, d) := x.daemon.beginShutdown
      { x with daemon := d, call := some call }
    else x
  | .call now =>
    match x.call with
    | some call =>
      if call.wait x.daemon now = .ready then
        let (call, d) := call.step x.daemon now
        { x with daemon := d, call := some call }
      else x
    | none => x
  | .returns => if x.call.all (·.mayReturn) then { x with call := none } else x
  | .report shard e =>
    match x.call with
    | some _ => x
    | none =>
      let (report, d) := x.daemon.report shard e
      { x with daemon := d, reports := x.reports ++ [report] }
  | .reporting j now =>
    match x.reports[j]? with
    | some report =>
      if report.wait x.daemon now = .ready then
        let (report, d) := report.step x.daemon now
        { x with daemon := d, reports := x.reports.set j report }
      else x
    | none => x
  | .withdraws j =>
    match x.reports[j]? with
    | some report =>
      { x with daemon := x.daemon.withdraw report, reports := x.reports.eraseIdx j }
    | none => x
  | .elsewhere commons => { x with daemon := { x.daemon with commons := commons } }

/-! ## What a move brings -/

/-- What someone waits for. -/
def wait (x : Tenure L π) (now : Moment) : TenureActor → Wait
  | .caller => x.call.elim .over (·.wait x.daemon now)
  | .task t => x.daemon.wait now t

/-- Someone takes a step with a move. -/
def Acts (x : Tenure L π) (m : TenureMove L π) (a : TenureActor) : Prop :=
  ∃ now, m = a.move now ∧ x.wait now a = .ready

/-- What a move brings. -/
inductive Happens (x : Tenure L π) : TenureMove L π → Tenure L π → Prop where
  /-- Nothing happens, and nobody takes a step. -/
  | idles {m : TenureMove L π} (h : ∀ a, ¬ x.Acts m a) : Happens x m x
  /-- A task takes a step. -/
  | task {now : Moment} {task : DaemonTask} (h : x.daemon.wait now task = .ready) :
    Happens x (.task now task) { x with daemon := x.daemon.step now task }
  /-- A beat comes late. -/
  | late (now : Moment) : Happens x (.late now) { x with daemon := { x.daemon with
      agent := (x.daemon.agent.lateBeat x.daemon.commons now).1
      commons := (x.daemon.agent.lateBeat x.daemon.commons now).2 } }
  /-- A projection is added. -/
  | projects {p : π} {d : Daemon L π} (hfree : x.isFree = true)
    (h : x.daemon.addProjection p = .ok d) : Happens x (.project p) { x with daemon := d }
  /-- The rules change. -/
  | governs {change : Policy → Policy} {d : Daemon L π} (hfree : x.isFree = true)
    (h : x.daemon.changePolicy change = .ok d) : Happens x (.govern change) { x with daemon := d }
  /-- Someone begins to start the daemon. -/
  | starts (now : Moment) (hfree : x.isFree = true) : Happens x (.start now)
      { x with daemon := (x.daemon.start now).2, call := some (x.daemon.start now).1 }
  /-- Someone begins to shut the daemon down. -/
  | shuts (hfree : x.isFree = true) : Happens x .shutdown
      { x with daemon := x.daemon.beginShutdown.2, call := some x.daemon.beginShutdown.1 }
  /-- The call takes a step. -/
  | calls {now : Moment} {call : DaemonCall} (hcall : x.call = some call)
    (h : call.wait x.daemon now = .ready) : Happens x (.call now)
      { x with daemon := (call.step x.daemon now).2, call := some (call.step x.daemon now).1 }
  /-- The call returns, if there is one. -/
  | returns (h : x.call.all (·.mayReturn) = true) : Happens x .returns { x with call := none }
  /-- Someone begins to report a failure. -/
  | reports (shard : ShardName) (e : Failure) (hcall : x.call = none) :
    Happens x (.report shard e) { x with
      daemon := (x.daemon.report shard e).2
      reports := x.reports ++ [(x.daemon.report shard e).1] }
  /-- A report takes a step. -/
  | turns {j : ℕ} {now : Moment} {report : DaemonCall} (hj : x.reports[j]? = some report)
    (h : report.wait x.daemon now = .ready) : Happens x (.reporting j now) { x with
      daemon := (report.step x.daemon now).2
      reports := x.reports.set j (report.step x.daemon now).1 }
  /-- A report is over, or is given up. -/
  | withdraws {j : ℕ} {report : DaemonCall} (hj : x.reports[j]? = some report) :
    Happens x (.withdraws j)
      { x with daemon := x.daemon.withdraw report, reports := x.reports.eraseIdx j }
  /-- Others change what they share with the daemon. -/
  | elsewhere (commons : Commons L) :
    Happens x (.elsewhere commons) { x with daemon := { x.daemon with commons := commons } }

variable (x : Tenure L π)

/-- A move brings what it says, or nothing if it is not possible. -/
theorem happens (m : TenureMove L π) : x.Happens m (x.perform m) := by
  by_cases hacts : ∃ a, x.Acts m a
  · obtain ⟨a, now, rfl, hready⟩ := hacts
    cases a with
    | caller =>
      cases hcall : x.call with
      | none => simp [wait, hcall] at hready
      | some call =>
        have hready : call.wait x.daemon now = .ready := by simpa [wait, hcall] using hready
        simp only [TenureActor.move, perform, hcall, if_pos hready]
        exact .calls hcall hready
    | task t =>
      have hready : x.daemon.wait now t = .ready := hready
      simp only [TenureActor.move, perform, if_pos hready]
      exact .task hready
  -- Where nobody takes a step, a move that is not possible brings nothing.
  have hidles : x.Happens m x := .idles (not_exists.mp hacts)
  cases m with
  | task now task =>
    simp only [perform]
    split_ifs with hready
    · exact .task hready
    · exact hidles
  | late now => exact .late now
  | project p =>
    simp only [perform]
    split_ifs with hfree
    · cases hadd : x.daemon.addProjection p with
      | error e => exact hidles
      | ok d => exact .projects hfree hadd
    · exact hidles
  | govern change =>
    simp only [perform]
    split_ifs with hfree
    · cases hchange : x.daemon.changePolicy change with
      | error e => exact hidles
      | ok d => exact .governs hfree hchange
    · exact hidles
  | start now =>
    simp only [perform]
    split_ifs with hfree
    · exact .starts now hfree
    · exact hidles
  | shutdown =>
    simp only [perform]
    split_ifs with hfree
    · exact .shuts hfree
    · exact hidles
  | call now =>
    simp only [perform]
    split
    next call hcall =>
      split_ifs with hready
      · exact .calls hcall hready
      · exact hidles
    next => exact hidles
  | returns =>
    simp only [perform]
    split_ifs with hreturns
    · exact .returns hreturns
    · exact hidles
  | report shard e =>
    simp only [perform]
    split
    next => exact hidles
    next hcall => exact .reports shard e hcall
  | reporting j now =>
    simp only [perform]
    split
    next report hj =>
      split_ifs with hready
      · exact .turns hj hready
      · exact hidles
    next => exact hidles
  | withdraws j =>
    simp only [perform]
    split
    next report hj => exact .withdraws hj
    next => exact hidles
  | elsewhere commons => exact .elsewhere commons

end Tenure

/-! ## Daemons that do nothing -/

section Dormant

variable {L π : Type}

/-- Nothing runs, and there is no supervisor. -/
structure Daemon.Dormant (d : Daemon L π) : Prop where
  supervisor : d.supervisor = none
  consumers : d.consumers = []
  agent : d.agent.Idle

namespace Daemon.Dormant

variable {d : Daemon L π} (h : d.Dormant)

include h

/-- A dormant daemon has no tasks. -/
theorem tasks_eq : d.tasks = [] := by
  simp [tasks, Agent.tasks, h.supervisor, h.consumers, h.agent.loops, h.agent.heartbeat]

/-- No task of a dormant daemon is ready. -/
theorem wait_ne [EventLog L] [Projection π] (now : Moment) (task : DaemonTask) :
    d.wait now task ≠ .ready := by
  cases task with
  | agent task =>
    cases task with
    | loop k => simp [wait, Agent.wait, h.agent.loops]
    | heartbeat => simp [wait, Agent.wait, Agent.heartbeatWait, h.agent.heartbeat]
  | consumer k => simp [wait, h.supervisor]
  | dispatcher => simp [wait, h.supervisor]
  | worker k => simp [wait, h.supervisor]

/-- No beat of a dormant daemon comes late. -/
theorem lateBeat_eq [EventLog L] (now : Moment) :
    d.agent.lateBeat d.commons now = (d.agent, d.commons) :=
  (d.agent.beaten_lateBeat d.commons now).eq_of_idle h.agent

/-- A report to a dormant daemon is refused. -/
theorem report_eq (shard : ShardName) (e : Failure) :
    d.report shard e = (.reported (.error (d.wrongState .running)), d) := by
  rw [report, h.supervisor]

end Daemon.Dormant

end Dormant

/-! ## Calls -/

section Calls

variable {L π : Type}

/-- Someone stops an agent. -/
def AgentCall.Stops (a : Agent) : AgentCall → Prop
  | .starting _ | .started _ => False
  | .endingHeartbeat => a.detection.stopping.value = true
  | .endingLoop => a.detection.stopping.value = true ∧ a.heartbeat = none
  | .stopped => True

/-- An agent keeps the stop signal, and gets no heartbeat. -/
structure Agent.KeepsStopping (a a' : Agent) : Prop where
  stopping : a'.detection.stopping = a.detection.stopping
  heartbeat : a.heartbeat = none → a'.heartbeat = none

/-- Whoever stops an agent goes on with that when it keeps the stop signal. -/
theorem AgentCall.Stops.keep {a a' : Agent} (h : a.KeepsStopping a') {call : AgentCall}
    (hcall : call.Stops a) : call.Stops a' := by
  cases call with
  | starting | started => exact hcall
  | endingHeartbeat => exact (congrArg _ h.stopping).trans hcall
  | endingLoop => exact ⟨(congrArg _ h.stopping).trans hcall.1, h.heartbeat hcall.2⟩
  | stopped => trivial

/-- A step of a task keeps the stop signal. -/
theorem Agent.keepsStopping_step [EventLog L] (a : Agent) (c : Commons L) (now : Moment)
    (task : AgentTask) : a.KeepsStopping (a.step c now task).1 := by
  refine ⟨(a.step_published c now task).1.stopping, fun hnone => ?_⟩
  have hsome := a.isSome_heartbeat_step c now task
  rw [hnone] at hsome
  exact Option.isNone_iff_eq_none.mp (by simpa using hsome)

/-- A beat that comes late keeps the stop signal. -/
theorem Agent.keepsStopping_lateBeat [EventLog L] (a : Agent) (c : Commons L) (now : Moment) :
    a.KeepsStopping (a.lateBeat c now).1 := by
  have hbeaten := a.beaten_lateBeat c now
  refine ⟨congrArg _ hbeaten.unheard.detection, fun hnone => ?_⟩
  have hsome := hbeaten.isSome_heartbeat
  rw [hnone] at hsome
  exact Option.isNone_iff_eq_none.mp (by simpa using hsome)

/-- The call that has a daemon to itself suits its state. -/
def DaemonCall.Suits (d : Daemon L π) : DaemonCall → Prop
  | .starting _ => d.state = .starting ∧ d.supervisor = none ∧ d.consumers = []
  | .started _ => d.state ≠ .created
  | .stopping a => d.state = .shuttingDown ∧ a.Stops d.agent
  | .joining _ _ => d.state = .shuttingDown
  | .draining => d.state = .shuttingDown ∧ ∀ s ∈ d.supervisor, s.commands.isOpen = false
  | .stopped => d.state = .stopped
  | .reporting _ | .reported _ => False

/-- Whoever stops an agent stops it with the next step as well. -/
theorem AgentCall.Stops.step [EventLog L] {a : Agent} {call : AgentCall} (h : call.Stops a)
    (c : Commons L) (now : Moment) : (call.step a c now).1.Stops (call.step a c now).2.1 := by
  cases call with
  | starting | started => exact h.elim
  | endingHeartbeat => exact ⟨h, rfl⟩
  | endingLoop | stopped => trivial

/-- A step of a task keeps the stop signal. -/
theorem Daemon.keepsStopping_step [EventLog L] [Projection π] (d : Daemon L π) (now : Moment)
    (task : DaemonTask) : d.agent.KeepsStopping (d.step now task).agent := by
  have hsame := (d.step_frame now task).2
  cases task with
  | agent task => exact d.agent.keepsStopping_step d.commons now task
  | _ =>
    rw [hsame (by simp)]
    exact ⟨rfl, id⟩

/-- A daemon that suits a call has not been left as it was made. -/
theorem DaemonCall.Suits.not_created {call : DaemonCall} {d : Daemon L π} (h : call.Suits d) :
    d.state ≠ .created := by
  intro hcreated
  cases call with
  | starting => cases hcreated.symm.trans h.1
  | started => exact h hcreated
  | stopping => cases hcreated.symm.trans h.1
  | joining => cases hcreated.symm.trans h
  | draining => cases hcreated.symm.trans h.1
  | stopped => cases hcreated.symm.trans h
  | reporting | reported => exact h.elim

/-- A call suits a daemon that differs in things it does not care for. -/
theorem DaemonCall.Suits.of_same {call : DaemonCall} {d d' : Daemon L π} (h : call.Suits d)
    (hstate : d'.state = d.state) (hnone : d.supervisor = none → d'.supervisor = none)
    (hconsumers : d.consumers = [] → d'.consumers = []) (hagent : d.agent.KeepsStopping d'.agent)
    (hclosed : ∀ s' ∈ d'.supervisor, (∀ s ∈ d.supervisor, s.commands.isOpen = false) →
      s'.commands.isOpen = false) : call.Suits d' := by
  cases call with
  | starting => exact ⟨hstate.trans h.1, hnone h.2.1, hconsumers h.2.2⟩
  | started => exact fun heq => h (hstate.symm.trans heq)
  | stopping a => exact ⟨hstate.trans h.1, h.2.keep hagent⟩
  | joining => exact hstate.trans h
  | draining => exact ⟨hstate.trans h.1, fun s' hs' => hclosed s' hs' h.2⟩
  | stopped => exact hstate.trans h
  | reporting | reported => exact h

end Calls

namespace Daemon

variable {d : Daemon L π}

/-- The block of a supervisor that is stopped stays attended. -/
theorem Attended.stopCommands (h : d.Attended []) : d.stopCommands.2.Attended [] :=
  h.of_commands rfl le_rfl Option.map_eq_none_iff.mp fun s' hs' => by
    obtain ⟨s, hs, rfl⟩ := Option.map_eq_some_iff.mp hs'
    exact ⟨s, hs, (·.stop)⟩

variable [Projection π]

/-- A daemon that is being started is not left as it was made when it is launched. -/
theorem state_launch (d : Daemon L π) (found : Statistics) (hstate : d.state = .starting) :
    (d.launch found).2.state ≠ .created := by
  unfold launch
  dsimp only
  split
  · exact fun hcreated => by cases hstate.symm.trans hcreated
  · exact fun hcreated => by cases hcreated

/-- The consumers of a daemon that is launched attend a new block. -/
theorem attended_launch (d : Daemon L π) (hsupervisor : d.supervisor = none)
    (hconsumers : d.consumers = []) (found : Statistics) : (d.launch found).2.Attended [] := by
  unfold launch
  dsimp only
  split
  · refine ⟨fun s hs => ?_, fun _ => hconsumers, ?_, ?_⟩
    · cases hsupervisor.symm.trans hs
    · simp [hconsumers]
    · simp [hconsumers]
  · next s hs =>
    obtain ⟨commands, hnew, hs⟩ := bind_eq_ok.mp hs
    obtain rfl := Except.ok.inj hs
    -- Every consumer is about to begin.
    have hopening (c : Consumer) (hc : c ∈ (d.projections.map Projection.shardName).map
        fun name => ({ identity := name.identity } : Consumer)) : c.stage = .opening := by
      obtain ⟨name, -, rfl⟩ := List.mem_map.mp hc
      rfl
    refine ⟨fun s' hs' => ?_, fun hnone => (by cases hnone), ?_, fun c hc => ?_⟩
    · obtain rfl := Option.some.inj hs'
      refine .new hnew fun p hp => ?_
      rw [List.append_nil] at hp
      obtain ⟨c, hc, rfl⟩ := List.mem_map.mp hp
      rw [Consumer.post, Consumer.report?, hopening c hc]
      rfl
    · simp [enter]
    · rw [Consumer.Tidy, hopening c hc]
      trivial

end Daemon

/-! ## Soundness -/

namespace Tenure

variable {L π : Type}

/-- Whatever has happened to a daemon. -/
structure Sound (x : Tenure L π) : Prop where
  /-- Whoever has the daemon to himself is alone. -/
  alone : ∀ call ∈ x.call, x.reports = []
  call : ∀ call ∈ x.call, call.Suits x.daemon
  reports : ∀ report ∈ x.reports, report.Reports
  created : x.daemon.state = .created → x.daemon.Dormant
  attended : x.daemon.Attended (x.reports.map (·.post))

variable {x : Tenure L π}

/-- A tenure in which others, who have no say in the calls and reports, change the daemon. -/
theorem Sound.others (h : x.Sound) {d : Daemon L π} (hstate : d.state = x.daemon.state)
    (hsupervisor : d.supervisor = x.daemon.supervisor)
    (hconsumers : d.consumers = x.daemon.consumers)
    (hprojections : x.daemon.projections.length ≤ d.projections.length)
    (hagent : x.daemon.agent.KeepsStopping d.agent) (hidle : x.daemon.Dormant → d.agent.Idle) :
    Sound { x with daemon := d } where
  alone := h.alone
  call call hcall := (h.call call hcall).of_same hstate (hsupervisor ▸ id) (hconsumers ▸ id) hagent
    fun s' hs' hclosed => hclosed s' (hsupervisor ▸ hs')
  reports := h.reports
  created hcreated :=
    have hdormant := h.created (hstate.symm.trans hcreated)
    ⟨hsupervisor.trans hdormant.supervisor, hconsumers.trans hdormant.consumers, hidle hdormant⟩
  attended := h.attended.of_same hsupervisor hconsumers hprojections

/-- A tenure that goes on with a call that has left the first state behind. -/
theorem Sound.goesOn (h : x.Sound) (halone : x.reports = []) {d : Daemon L π} (call : DaemonCall)
    (hcall : call.Suits d) (hattended : d.Attended []) : Sound ⟨d, some call, x.reports⟩ where
  alone _ _ := halone
  call _ heq := Option.some.inj heq ▸ hcall
  reports := h.reports
  created hcreated := absurd hcreated hcall.not_created
  attended := by
    rw [halone]
    exact hattended

/-- A tenure without a call, with a daemon that may have another supervisor. -/
theorem Sound.free (h : x.Sound) (hcall : x.call = none) {d : Daemon L π}
    {reports : List DaemonCall} (hstate : d.state = x.daemon.state)
    (hnone : x.daemon.supervisor = none → d.supervisor = none)
    (hconsumers : d.consumers = x.daemon.consumers) (hagent : d.agent = x.daemon.agent)
    (hreports : ∀ report ∈ reports, report.Reports)
    (hattended : d.Attended (reports.map (·.post))) :
    Sound { x with daemon := d, reports := reports } where
  alone call hsome := by cases hcall.symm.trans hsome
  call call hsome := by cases hcall.symm.trans hsome
  reports := hreports
  created hcreated :=
    have hdormant := h.created (hstate.symm.trans hcreated)
    ⟨hnone hdormant.supervisor, hconsumers.trans hdormant.consumers, hagent ▸ hdormant.agent⟩
  attended := hattended

/-- A report posts behind the consumers. -/
theorem getElem?_posts (x : Tenure L π) {j : ℕ} {report : DaemonCall}
    (hj : x.reports[j]? = some report) :
    (x.daemon.posts ++ x.reports.map (·.post))[x.daemon.posts.length + j]? = some report.post := by
  rw [List.getElem?_append_right (Nat.le_add_right _ j), Nat.add_sub_cancel_left,
    List.getElem?_map, hj]
  rfl

/-- Nobody has the daemon to himself while there is a report. -/
theorem Sound.call_eq_none (h : x.Sound) {j : ℕ} {report : DaemonCall}
    (hj : x.reports[j]? = some report) : x.call = none :=
  Option.eq_none_iff_forall_ne_some.mpr fun call hcall => by
    rw [h.alone call hcall] at hj
    cases hj

/-- A new daemon is sound. -/
theorem sound_new (config : Config.Daemon) (log : L) (origin : Timestamp) :
    Sound ({ daemon := .new config log origin } : Tenure L π) where
  alone _ hsome := by cases hsome
  call _ hsome := by cases hsome
  reports _ hmem := by cases hmem
  created _ := ⟨rfl, rfl, ⟨rfl, rfl⟩⟩
  attended :=
    { commands := fun _ hsome => by cases hsome
      consumers := fun _ => rfl
      projections := Nat.zero_le _
      tidy := fun _ hmem => by cases hmem }

/-- Someone begins to shut the daemon down. -/
theorem Sound.shutdown (h : x.Sound) (halone : x.reports = []) :
    Sound ⟨x.daemon.beginShutdown.2, some x.daemon.beginShutdown.1, x.reports⟩ := by
  have hattended := h.attended
  rw [halone] at hattended
  unfold Daemon.beginShutdown
  split
  next hstopped => exact h.goesOn halone _ hstopped hattended
  next => exact h.goesOn halone _ rfl (hattended.of_same rfl rfl le_rfl)
  next => exact h.goesOn halone _ ⟨rfl, rfl⟩ (hattended.of_same rfl rfl le_rfl)

/-- The call goes on to wait for a consumer, or for the end of the commands. -/
theorem Sound.join (h : x.Sound) (halone : x.reports = []) {d : Daemon L π}
    (hstate : d.state = .shuttingDown) (hattended : d.Attended []) (now : Moment) (k : ℕ) :
    Sound ⟨(d.join now k).2, some (d.join now k).1, x.reports⟩ := by
  unfold Daemon.join
  split_ifs
  · exact h.goesOn halone _ hstate hattended
  · refine h.goesOn halone _ ⟨hstate, fun s hs => ?_⟩ hattended.stopCommands
    obtain ⟨s, -, rfl⟩ := Option.map_eq_some_iff.mp hs
    rfl

/-- Someone begins to report a failure. -/
theorem Sound.report (h : x.Sound) (hcall : x.call = none) (shard : ShardName) (e : Failure) :
    Sound { x with
      daemon := (x.daemon.report shard e).2
      reports := x.reports ++ [(x.daemon.report shard e).1] } := by
  have hreports {report : DaemonCall} (hreport : report.Reports) :
      ∀ r ∈ x.reports ++ [report], r.Reports := fun r hr => by
    rcases List.mem_append.mp hr with hold | hnew
    · exact h.reports r hold
    · exact List.mem_singleton.mp hnew ▸ hreport
  unfold Daemon.report
  cases hs : x.daemon.supervisor with
  | none =>
    refine h.free hcall rfl id rfl rfl (hreports trivial) ?_
    exact h.attended.of_commands rfl le_rfl id fun s' hs' => by cases hs.symm.trans hs'
  | some s =>
    refine h.free hcall rfl (fun hnone => ?_) rfl rfl (hreports (s.queues_report _ _ e)) ?_
    · cases hs.symm.trans hnone
    · refine h.attended.of_commands rfl le_rfl (fun hnone => (by cases hnone)) fun s' hs' =>
        ⟨s, hs, fun hb => ?_⟩
      obtain rfl := Option.some.inj hs'
      have hsame : (s.report x.daemon.commons.metrics shard.identity e).2.1.commands = s.commands :=
        congrArg Prod.snd (s.apart_report _ _ e)
      rw [hsame, List.map_append, ← List.append_assoc]
      exact hb.comes (s.tickets_report _ _ e)

/-- A report is over, or is given up. -/
theorem Sound.withdraws (h : x.Sound) {j : ℕ} {report : DaemonCall}
    (hj : x.reports[j]? = some report) :
    Sound { x with daemon := x.daemon.withdraw report, reports := x.reports.eraseIdx j } := by
  refine h.free (h.call_eq_none hj) rfl (fun hnone => ?_) rfl rfl (fun r hr => ?_) ?_
  · exact Option.map_eq_none_iff.mpr hnone
  · exact h.reports r (List.mem_of_mem_eraseIdx hr)
  · refine h.attended.of_commands rfl le_rfl Option.map_eq_none_iff.mp fun s' hs' => ?_
    obtain ⟨s, hs, rfl⟩ := Option.map_eq_some_iff.mp hs'
    refine ⟨s, hs, fun hb => ?_⟩
    have hattended := hb.withdraws (x.getElem?_posts hj)
    rwa [List.eraseIdx_append_of_length_le (Nat.le_add_right _ j), Nat.add_sub_cancel_left,
      List.eraseIdx_map] at hattended

variable [EventLog L]

/-- Someone begins to start the daemon. -/
theorem Sound.start (h : x.Sound) (halone : x.reports = []) (now : Moment) :
    Sound ⟨(x.daemon.start now).2, some (x.daemon.start now).1, x.reports⟩ := by
  have hattended := h.attended
  rw [halone] at hattended
  unfold Daemon.start Daemon.requireCreated
  split_ifs with hcreated
  · have hdormant := h.created hcreated
    have hresting : ¬ (x.daemon.enter .starting).agent.heartbeat.isSome := by
      simp [Daemon.enter, hdormant.agent.heartbeat]
    simp only [Agent.start, if_neg hresting]
    exact h.goesOn halone _ ⟨rfl, hdormant.supervisor, hdormant.consumers⟩
      (hattended.of_same rfl rfl le_rfl)
  · exact h.goesOn halone _ hcreated hattended

variable [Projection π]

/-- The call takes a step. -/
theorem Sound.callStep (h : x.Sound) {call : DaemonCall} (hcall : x.call = some call)
    (now : Moment) :
    Sound ⟨(call.step x.daemon now).2, some (call.step x.daemon now).1, x.reports⟩ := by
  have halone := h.alone call hcall
  have hsuits := h.call call hcall
  have hattended := h.attended
  rw [halone] at hattended
  cases call with
  | starting a =>
    obtain ⟨hstate, hsupervisor, hconsumers⟩ := hsuits
    by_cases hstarted : ∃ outcome, a = .started outcome
    · obtain ⟨(e | cause) | found, rfl⟩ := hstarted
      · exact h.goesOn halone (.started _) (fun heq => by cases heq)
          (hattended.of_same rfl rfl le_rfl)
      · exact h.goesOn halone (.started _) (fun heq => by cases hstate.symm.trans heq) hattended
      · exact h.goesOn halone (.started _) (x.daemon.state_launch found hstate)
          (x.daemon.attended_launch hsupervisor hconsumers found)
    · rw [DaemonCall.step_starting (not_exists.mp hstarted)]
      exact h.goesOn halone (.starting _) ⟨hstate, hsupervisor, hconsumers⟩
        (hattended.of_same rfl rfl le_rfl)
  | stopping a =>
    obtain ⟨hstate, hstops⟩ := hsuits
    by_cases hstopped : a = .stopped
    · subst hstopped
      exact h.join halone (d := { x.daemon with shutdown := true }) hstate
        (hattended.of_same rfl rfl le_rfl) now 0
    · rw [DaemonCall.step_stopping hstopped]
      exact h.goesOn halone (.stopping _) ⟨hstate, hstops.step _ now⟩
        (hattended.of_same rfl rfl le_rfl)
  | joining k due => exact h.join halone hsuits hattended now (k + 1)
  | draining => exact h.goesOn halone .stopped rfl (hattended.of_same rfl rfl le_rfl)
  | started outcome => exact h.goesOn halone _ hsuits hattended
  | stopped => exact h.goesOn halone _ hsuits hattended
  | reporting | reported => exact hsuits.elim

/-- A task takes a step. -/
theorem Sound.task (h : x.Sound) {now : Moment} {task : DaemonTask}
    (hready : x.daemon.wait now task = .ready) :
    Sound { x with daemon := x.daemon.step now task } where
  alone := h.alone
  call call hcall := by
    obtain ⟨hnone, hlength, -⟩ := x.daemon.consumers_step now task
    refine (h.call call hcall).of_same (x.daemon.state_step now task) hnone (fun hnil => ?_)
      (x.daemon.keepsStopping_step now task) fun s' hs' hclosed => ?_
    · rw [hnil] at hlength
      exact List.eq_nil_of_length_eq_zero hlength
    · cases hs : x.daemon.supervisor with
      | none =>
        rw [hnone hs] at hs'
        cases hs'
      | some s =>
        obtain ⟨s'', hs'', hturn⟩ :=
          x.daemon.command_turn h.attended.tidy h.attended.projections hs now task
        obtain rfl := Option.some.inj (hs'.symm.trans hs'')
        exact hturn.closed (hclosed s hs)
  reports := h.reports
  created hcreated := by
    have hdormant := h.created ((x.daemon.state_step now task).symm.trans hcreated)
    exact absurd hready (hdormant.wait_ne now task)
  attended := h.attended.step now task

/-- A report takes a step. -/
theorem Sound.reporting (h : x.Sound) {j : ℕ} {report : DaemonCall}
    (hj : x.reports[j]? = some report) (now : Moment) :
    Sound { x with
      daemon := (report.step x.daemon now).2
      reports := x.reports.set j (report.step x.daemon now).1 } := by
  obtain ⟨report', supervisor, commons, hstep, hreport, hnone, hturn⟩ :=
    (h.reports report (List.mem_of_getElem? hj)).step x.daemon now
  rw [hstep]
  refine h.free (h.call_eq_none hj) rfl hnone rfl rfl (fun r hr => ?_) ?_
  · rcases List.mem_or_eq_of_mem_set hr with hold | rfl
    · exact h.reports r hold
    · exact hreport
  · refine h.attended.of_commands rfl le_rfl (fun hnone' => ?_) fun s' hs' => ?_
    · by_contra hsome
      obtain ⟨s, hs⟩ := Option.ne_none_iff_exists'.mp hsome
      obtain ⟨s', hs', -⟩ := hturn s hs
      cases hs'.symm.trans hnone'
    · cases hs : x.daemon.supervisor with
      | none => cases (hnone hs).symm.trans hs'
      | some s =>
        obtain ⟨s'', hs'', hgoes⟩ := hturn s hs
        obtain rfl := Option.some.inj (hs'.symm.trans hs'')
        refine ⟨s, rfl, fun hb => ?_⟩
        have hset := List.set_append_right (s := x.daemon.posts) (t := x.reports.map (·.post)) _
          report'.post (Nat.le_add_right _ j)
        rw [Nat.add_sub_cancel_left] at hset
        rw [List.map_set, ← hset]
        rcases hgoes with ⟨hsame, hbefore, hafter⟩ | hgoes
        · rw [hsame]
          exact hb.idles (x.getElem?_posts hj) hbefore hafter
        · exact hb.turn (x.getElem?_posts hj) hgoes

/-- Whatever happens to a daemon leaves it sound. -/
theorem Sound.perform (h : x.Sound) (m : TenureMove L π) : (x.perform m).Sound := by
  have hhappens := x.happens m
  generalize x.perform m = x' at hhappens
  cases hhappens with
  | idles => exact h
  | task hready => exact h.task hready
  | late now =>
    exact h.others rfl rfl rfl le_rfl
      (x.daemon.agent.keepsStopping_lateBeat x.daemon.commons now)
      fun hdormant => (congrArg Prod.fst (hdormant.lateBeat_eq now)).symm ▸ hdormant.agent
  | projects hfree hadd =>
    obtain ⟨-, -, rfl⟩ := Daemon.addProjection_eq_ok hadd
    exact h.others rfl rfl rfl (List.prefix_append _ _).length_le ⟨rfl, id⟩ (·.agent)
  | governs hfree hchange =>
    obtain ⟨-, -, hd⟩ := bind_eq_ok.mp hchange
    obtain rfl := Except.ok.inj hd
    exact h.others rfl rfl rfl le_rfl ⟨rfl, id⟩ (·.agent)
  | starts now hfree => exact h.start (isFree_iff.mp hfree).2 now
  | shuts hfree => exact h.shutdown (isFree_iff.mp hfree).2
  | calls hcall => exact h.callStep hcall _
  | returns =>
    exact ⟨fun _ hsome => (by cases hsome), fun _ hsome => (by cases hsome), h.reports, h.created,
      h.attended⟩
  | reports shard e hcall => exact h.report hcall shard e
  | turns hj => exact h.reporting hj _
  | withdraws hj => exact h.withdraws hj
  | elsewhere commons => exact h.others rfl rfl rfl le_rfl ⟨rfl, id⟩ (·.agent)

end Tenure

/-! ## Courses -/

/-- What happens to a new daemon. -/
structure TenureCourse (L π : Type) where
  config : Config.Daemon
  log : L
  origin : Timestamp
  move : ℕ → TenureMove L π

namespace TenureCourse

variable {L π : Type} [EventLog L] [Projection π]

/-- The tenure before a move. -/
def state (x : TenureCourse L π) : ℕ → Tenure L π
  | 0 => { daemon := .new x.config x.log x.origin }
  | n + 1 => (x.state n).perform (x.move n)

/-- A daemon is sound at any time. -/
theorem sound (x : TenureCourse L π) (n : ℕ) : (x.state n).Sound := by
  induction n with
  | zero => exact Tenure.sound_new x.config x.log x.origin
  | succ n ih => exact ih.perform (x.move n)

end TenureCourse

end Tidemark
