import Tidemark.Proofs.Daemon.Winding
import Tidemark.Proofs.Log.Rowed

/-!
# False starts

A start that fails because the log fails under the first scan sets nothing off. No row of progress
and nothing that is published has been changed by it, the projections and the rules are still there,
and nothing but a shutdown is possible from then on. A shutdown comes to an end whatever has
happened to the daemon before, and what has been shut down stays so.
-/

namespace Tidemark

variable {L π : Type}

/-! ## States -/

namespace Daemon

variable {d : Daemon L π}

/-- What is possible before the start only is refused otherwise. -/
theorem requireCreated_of_ne (h : d.state ≠ .created) :
    d.requireCreated = .error (d.wrongState .created) := if_neg h

/-- A daemon that was started or shut down is not started again. -/
theorem start_of_ne [EventLog L] (h : d.state ≠ .created) (now : Moment) :
    d.start now = (.started (.error (.error (d.wrongState .created))), d) := by
  rw [start, requireCreated_of_ne h]

/-- A daemon that was started or shut down gets no further projection. -/
theorem addProjection_of_ne [Projection π] (h : d.state ≠ .created) (p : π) :
    d.addProjection p = .error (d.wrongState .created) := by
  rw [addProjection, requireCreated_of_ne h]
  rfl

/-- A daemon that was started or shut down gets no other rules. -/
theorem changePolicy_of_ne (h : d.state ≠ .created) (change : Policy → Policy) :
    d.changePolicy change = .error (d.wrongState .created) := by
  rw [changePolicy, requireCreated_of_ne h]
  rfl

/-- What has been shut down is not changed by another shutdown. -/
theorem beginShutdown_of_stopped (h : d.state = .stopped) : d.beginShutdown = (.stopped, d) := by
  rw [beginShutdown, h]

end Daemon

namespace Tenure

variable [EventLog L] [Projection π] {x : Tenure L π}

/-- The state of a daemon changes with a start, a shutdown or a step of the call at most. -/
theorem Sound.state_perform (h : x.Sound) {m : TenureMove L π} (hstart : ∀ now, m ≠ .start now)
    (hshutdown : m ≠ .shutdown) (hcall : ∀ now, m ≠ .call now) :
    (x.perform m).daemon.state = x.daemon.state := by
  have hhappens := x.happens m
  generalize x.perform m = x' at hhappens
  cases hhappens with
  | @task now task => exact x.daemon.state_step now task
  | projects hfree hadd =>
    obtain ⟨-, -, rfl⟩ := Daemon.addProjection_eq_ok hadd
    rfl
  | governs hfree hchange =>
    obtain ⟨-, -, hd⟩ := bind_eq_ok.mp hchange
    obtain rfl := Except.ok.inj hd
    rfl
  | starts now => exact absurd rfl (hstart now)
  | shuts => exact absurd rfl hshutdown
  | calls => exact absurd rfl (hcall _)
  | reports shard e =>
    simp only [Daemon.report]
    split <;> rfl
  | @turns _ now _ hj =>
    obtain ⟨report', supervisor, commons, hstep, -⟩ :=
      (h.reports _ (List.mem_of_getElem? hj)).step x.daemon now
    exact congrArg (·.2.state) hstep
  | idles | late | returns | withdraws | elsewhere => rfl

/-- A daemon that was started or shut down is not left as it was made. -/
theorem Sound.not_created (h : x.Sound) (hstate : x.daemon.state ≠ .created) (m : TenureMove L π) :
    (x.perform m).daemon.state ≠ .created := by
  have hsound := h.perform m
  have hsame := h.state_perform (m := m)
  have hhappens := x.happens m
  generalize x.perform m = x' at hsound hsame hhappens
  cases hhappens with
  | starts | shuts | calls => exact (hsound.call _ rfl).not_created
  | idles => exact hstate
  | _ =>
    rw [hsame (by simp) (by simp) (by simp)]
    exact hstate

/-- What has been shut down stays so. -/
theorem Sound.stopped_perform (h : x.Sound) (hstate : x.daemon.state = .stopped)
    (m : TenureMove L π) : (x.perform m).daemon.state = .stopped := by
  have hsame := h.state_perform (m := m)
  have hhappens := x.happens m
  generalize x.perform m = x' at hsame hhappens
  cases hhappens with
  | starts now =>
    rw [Daemon.start_of_ne (by simp [hstate])]
    exact hstate
  | shuts =>
    rw [Daemon.beginShutdown_of_stopped hstate]
    exact hstate
  | @calls _ call hcall =>
    have hsuits := h.call call hcall
    cases call with
    | starting => cases hstate.symm.trans hsuits.1
    | stopping => cases hstate.symm.trans hsuits.1
    | joining => cases hstate.symm.trans hsuits
    | draining => rfl
    | started | stopped => exact hstate
    | reporting | reported => exact hsuits.elim
  | idles => exact hstate
  | _ =>
    rw [hsame (by simp) (by simp) (by simp)]
    exact hstate

/-! ## Starts under way -/

/-- Without a call, none begins but with a start or a shutdown. -/
theorem call_perform_of_none (hcall : x.call = none) {m : TenureMove L π}
    (hstart : ∀ now, m ≠ .start now) (hshutdown : m ≠ .shutdown) : (x.perform m).call = none := by
  have hhappens := x.happens m
  generalize x.perform m = x' at hhappens
  cases hhappens with
  | starts now => exact absurd rfl (hstart now)
  | shuts => exact absurd rfl hshutdown
  | calls hsome => cases hcall.symm.trans hsome
  | returns => rfl
  | _ => exact hcall

/-- Only a daemon that was left as it was made begins to be started. -/
theorem Sound.starting_of_perform (h : x.Sound) (hstate : x.daemon.state ≠ .created)
    (m : TenureMove L π) {a' : AgentCall} (hnext : (x.perform m).call = some (.starting a')) :
    ∃ a, x.call = some (.starting a) ∧
      (a' = a ∨ ∃ now, a' = (a.step x.daemon.agent x.daemon.commons now).1) := by
  cases hcall : x.call with
  | none =>
    have hnone := call_perform_of_none hcall (m := m)
    have hhappens := x.happens m
    generalize x.perform m = x' at hnext hnone hhappens
    cases hhappens with
    | starts now =>
      rw [Daemon.start_of_ne hstate] at hnext
      cases hnext
    | shuts =>
      simp only [Daemon.beginShutdown] at hnext
      split at hnext <;> cases hnext
    | idles => cases hcall.symm.trans hnext
    | _ => cases (hnone (by simp) (by simp)).symm.trans hnext
  | some call =>
    have hbusy := h.busy hcall m
    generalize x.perform m = x' at hnext hbusy
    cases hbusy with
    | rests | task | late | elsewhere => exact ⟨a', hcall.symm.trans hnext, .inl rfl⟩
    | returns => cases hnext
    | @calls now hready =>
      have hnext : (call.step x.daemon now).1 = .starting a' := Option.some.inj hnext
      cases call with
      | starting a =>
        by_cases hstarted : ∃ outcome, a = .started outcome
        · obtain ⟨(e | cause) | found, rfl⟩ := hstarted <;> cases hnext
        · rw [DaemonCall.step_starting (not_exists.mp hstarted)] at hnext
          exact ⟨a, rfl, .inr ⟨now, (DaemonCall.starting.inj hnext).symm⟩⟩
      | stopping a =>
        by_cases hstopped : a = .stopped
        · subst hstopped
          simp only [DaemonCall.step, Daemon.join] at hnext
          split_ifs at hnext
          cases hnext
        · rw [DaemonCall.step_stopping hstopped] at hnext
          cases hnext
      | joining k due =>
        simp only [DaemonCall.step, Daemon.join] at hnext
        split_ifs at hnext
        cases hnext
      | reporting => exact (h.call _ hcall).elim
      | _ => cases hnext

end Tenure

/-! ## Daemons on which nothing was set off -/

/-- A daemon does nothing, and has the projections and the rules of another one. -/
structure Daemon.Rests (d₀ d : Daemon L π) : Prop where
  dormant : d.Dormant
  projections : d.projections = d₀.projections
  policy : d.policy = d₀.policy

/-- A daemon rests as before if a change sets nothing off. -/
theorem Daemon.Rests.of_same {d₀ d d' : Daemon L π} (h : d₀.Rests d)
    (hsupervisor : d.supervisor = none → d'.supervisor = none)
    (hconsumers : d'.consumers = d.consumers) (hagent : d.agent.Idle → d'.agent.Idle)
    (hprojections : d'.projections = d.projections) (hpolicy : d'.policy = d.policy) :
    d₀.Rests d' :=
  ⟨⟨hsupervisor h.dormant.supervisor, hconsumers.trans h.dormant.consumers, hagent h.dormant.agent⟩,
    hprojections.trans h.projections, hpolicy.trans h.policy⟩

/-- The agent has not been set off by someone who starts it, and his first scan has not crashed. -/
def AgentCall.Fruitless : AgentCall → Prop
  | .starting _ | .started (.error (.error _)) => True
  | _ => False

/-- The call is not a start that has set the agent off. -/
def DaemonCall.Fruitless : DaemonCall → Prop
  | .starting a => a.Fruitless
  | _ => True

section Rests

variable [EventLog L] [Projection π] {d₀ d : Daemon L π}

omit [EventLog L] [Projection π] in
/-- After a scan that has found something the agent is set off, or the start crashes. -/
theorem Agent.not_fruitless_launch (a : Agent) (c : Commons L) (found : Statistics) :
    ¬ (AgentCall.started (a.launch c found).1).Fruitless := by
  unfold launch
  split
  · exact id
  · dsimp only
    split <;> exact id

omit [Projection π] in
/-- An agent that is idle stays so when someone stops it. -/
theorem AgentCall.Stops.idle_step {a : Agent} (hidle : a.Idle) {call : AgentCall}
    (hcall : call.Stops a) (c : Commons L) (now : Moment) : (call.step a c now).2.1.Idle := by
  cases call with
  | starting | started => exact hcall.elim
  | endingHeartbeat => exact ⟨hidle.loops, rfl⟩
  | endingLoop => exact ⟨hidle.loops, hidle.heartbeat⟩
  | stopped => exact hidle

omit [Projection π] in
/-- An agent that is idle is not set off by a start that fails. -/
theorem AgentCall.Fruitless.idle_step {a : Agent} (hidle : a.Idle) {call : AgentCall}
    (hcall : call.Fruitless) (c : Commons L) (now : Moment)
    (hnext : (call.step a c now).1.Fruitless) : (call.step a c now).2.1.Idle := by
  cases call with
  | starting scan =>
    simp only [step] at hnext ⊢
    split at hnext
    next => exact hidle
    next => exact hidle
    next found c' _ => exact (a.not_fruitless_launch c' found hnext).elim
  | started => exact hidle
  | _ => exact hcall.elim

/-- A daemon on which nothing was set off rests as before after a step of the call. -/
theorem Daemon.Rests.callStep (h : d₀.Rests d) {call : DaemonCall} (hsuits : call.Suits d)
    (hcall : call.Fruitless) (now : Moment) (hnext : (call.step d now).1.Fruitless) :
    d₀.Rests (call.step d now).2 := by
  have hjoin (shutdown : Bool) (k : ℕ) :
      d₀.Rests ({ d with shutdown := shutdown }.join now k).2 := by
    unfold Daemon.join
    split_ifs
    · exact h.of_same id rfl id rfl rfl
    · exact h.of_same (fun hnone => Option.map_eq_none_iff.mpr hnone) rfl id rfl rfl
  cases call with
  | starting a =>
    by_cases hstarted : ∃ outcome, a = .started outcome
    · obtain ⟨(e | cause) | found, rfl⟩ := hstarted
      · exact h.of_same id rfl id rfl rfl
      · exact hcall.elim
      · exact hcall.elim
    · rw [DaemonCall.step_starting (not_exists.mp hstarted)] at hnext ⊢
      exact h.of_same id rfl (fun hidle => hcall.idle_step hidle d.commons now hnext) rfl rfl
  | stopping a =>
    by_cases hstopped : a = .stopped
    · subst hstopped
      exact hjoin true 0
    · rw [DaemonCall.step_stopping hstopped]
      exact h.of_same id rfl (fun hidle => hsuits.2.idle_step hidle d.commons now) rfl rfl
  | joining k due => exact hjoin d.shutdown (k + 1)
  | draining => exact h.of_same id rfl id rfl rfl
  | started | stopped => exact h
  | reporting | reported => exact hsuits.elim

/-- A daemon on which nothing was set off rests as before after a move that sets nothing off. -/
theorem Tenure.Sound.rests_perform {x : Tenure L π} (h : x.Sound)
    (hstate : x.daemon.state ≠ .created) (hrests : d₀.Rests x.daemon) {m : TenureMove L π}
    (hcall : ∀ call ∈ x.call, call.Fruitless)
    (hnext : ∀ call ∈ (x.perform m).call, call.Fruitless) : d₀.Rests (x.perform m).daemon := by
  have hhappens := x.happens m
  generalize x.perform m = x' at hnext hhappens
  cases hhappens with
  | @task now task hready => exact absurd hready (hrests.dormant.wait_ne now task)
  | late now =>
    rw [hrests.dormant.lateBeat_eq now]
    exact hrests
  | projects _ hadd => cases (Daemon.addProjection_of_ne hstate _).symm.trans hadd
  | governs _ hchange => cases (Daemon.changePolicy_of_ne hstate _).symm.trans hchange
  | starts now =>
    rw [Daemon.start_of_ne hstate]
    exact hrests
  | shuts =>
    unfold Daemon.beginShutdown
    split
    · exact hrests
    · exact hrests.of_same id rfl id rfl rfl
    · exact hrests.of_same id rfl (fun hidle => ⟨hidle.loops, hidle.heartbeat⟩) rfl rfl
  | @calls now call hsome =>
    exact hrests.callStep (h.call call hsome) (hcall call hsome) now (hnext _ rfl)
  | reports shard e =>
    rw [hrests.dormant.report_eq]
    exact hrests
  | @turns _ now report hj =>
    obtain ⟨report', supervisor, commons, hstep, -, hnone, -⟩ :=
      (h.reports report (List.mem_of_getElem? hj)).step x.daemon now
    rw [hstep]
    exact hrests.of_same hnone rfl id rfl rfl
  | withdraws =>
    exact hrests.of_same (fun hnone => Option.map_eq_none_iff.mpr hnone) rfl id rfl rfl
  | elsewhere => exact hrests.of_same id rfl id rfl rfl
  | idles | returns => exact hrests

end Rests

/-! ## What a start that fails leaves alone -/

/-- The rows of progress and what is published are left alone. -/
structure Commons.Untouched [EventLog L] [RowedLog L] (c c' : Commons L) : Prop where
  rows : RowedLog.rows c'.log = RowedLog.rows c.log
  tracker : c'.tracker = c.tracker

/-- A step of the first scan that sets nothing off leaves what is on record and what is published
alone. -/
theorem Agent.untouched_step [EventLog L] [RowedLog L] (a : Agent) (scan : Scan) (c : Commons L)
    (now : Moment) (h : ((AgentCall.starting scan).step a c now).1.Fruitless) :
    c.Untouched ((AgentCall.starting scan).step a c now).2.2 := by
  have huntouched := scan.step_untouched c now
  rcases hstep : scan.step c now with ⟨next, c'⟩
  rw [hstep] at huntouched
  simp only [AgentCall.step, hstep] at h ⊢
  cases next with
  | more scan' =>
    obtain ⟨hrows, htracker⟩ := huntouched fun _ heq => by cases heq
    exact ⟨hrows, htracker⟩
  | ended outcome =>
    cases outcome with
    | error fault =>
      obtain ⟨hrows, htracker⟩ := huntouched fun _ heq => by cases heq
      exact ⟨hrows, htracker⟩
    | ok found => exact (a.not_fruitless_launch c' found h).elim

/-- A scan ends with the error of the log. -/
theorem Scan.ended_of_error [EventLog L] {scan : Scan} {c : Commons L} {now : Moment} {e : Error}
    (h : (scan.pass.step c.log (c.time now)).1 = .error (.error e)) :
    (scan.step c now).1 = .ended (.error (.error e)) := by
  rcases hstep : scan.pass.step c.log (c.time now) with ⟨outcome, log⟩
  rw [hstep] at h
  obtain rfl : outcome = .error (.error e) := h
  simp only [step, Commons.call, hstep]

namespace Tenure

variable [EventLog L] [Projection π] {x : Tenure L π}

/-- A daemon that begins to be started has set nothing off. -/
theorem Sound.start_rests (h : x.Sound) (hfree : x.isFree = true)
    (hcreated : x.daemon.state = .created) (now : Moment) :
    (∃ scan, (x.perform (.start now)).call = some (.starting (.starting scan))) ∧
      x.daemon.Rests (x.perform (.start now)).daemon ∧
        (x.perform (.start now)).daemon.state ≠ .created ∧
          (x.perform (.start now)).daemon.commons.log = x.daemon.commons.log ∧
            (x.perform (.start now)).daemon.commons.tracker = x.daemon.commons.tracker := by
  have hdormant := h.created hcreated
  have hresting : ¬ (x.daemon.enter .starting).agent.heartbeat.isSome := by
    simp [Daemon.enter, hdormant.agent.heartbeat]
  simp only [Tenure.perform, if_pos hfree, Daemon.start, Daemon.requireCreated, if_pos hcreated,
    Agent.start, if_neg hresting]
  have hidle : Agent.Idle { x.daemon.agent with detection := { x.daemon.agent.detection with
      stopping := x.daemon.agent.detection.stopping.put false } } :=
    ⟨hdormant.agent.loops, hdormant.agent.heartbeat⟩
  exact ⟨⟨_, rfl⟩, ⟨⟨hdormant.supervisor, hdormant.consumers, hidle⟩, rfl, rfl⟩,
    fun heq => (by cases heq), rfl, rfl⟩

/-- As long as a start has set nothing off, and others leave it alone, what is on record and what is
published is left alone. -/
theorem Sound.untouched [RowedLog L] (h : x.Sound) {d₀ : Daemon L π} (hrests : d₀.Rests x.daemon)
    {a : AgentCall} (hcall : x.call = some (.starting a)) (ha : a.Fruitless) {m : TenureMove L π}
    (hnext : ∀ call ∈ (x.perform m).call, call.Fruitless) (hm : ∀ c, m ≠ .elsewhere c) :
    x.daemon.commons.Untouched (x.perform m).daemon.commons := by
  have hbusy := h.busy hcall m
  generalize x.perform m = x' at hnext hbusy
  cases hbusy with
  | rests | returns => exact ⟨rfl, rfl⟩
  | @task now task hready => exact absurd hready (hrests.dormant.wait_ne now task)
  | late now =>
    rw [hrests.dormant.lateBeat_eq now]
    exact ⟨rfl, rfl⟩
  | elsewhere commons => exact absurd rfl (hm commons)
  | @calls now hready =>
    cases a with
    | starting scan =>
      exact x.daemon.agent.untouched_step scan x.daemon.commons now (hnext _ rfl)
    | started outcome =>
      obtain (e | cause) | found := outcome
      · exact ⟨rfl, rfl⟩
      · exact ha.elim
      · exact ha.elim
    | _ => exact ha.elim

/-- The log has failed under the first scan, which is about to be returned to whoever starts the
daemon. -/
structure Failing (d₀ : Daemon L π) (e : Error) (x : Tenure L π) : Prop where
  sound : x.Sound
  started : x.daemon.state ≠ .created
  rests : d₀.Rests x.daemon
  call : x.call = some (.starting (.started (.error (.error e))))

/-- A start has failed. -/
structure Failed (e : Error) (x : Tenure L π) : Prop where
  call : x.call = some (.started (.error (.error e)))
  state : x.daemon.state = .failed

/-- With a move, a start that fails has failed, or goes on to fail and nobody had his turn. -/
theorem Failing.perform {d₀ : Daemon L π} {e : Error} (h : x.Failing d₀ e) (m : TenureMove L π) :
    (x.perform m).Failed e ∨ (x.perform m).Failing d₀ e ∧ ¬ x.Acts m .caller := by
  have hsound := h.sound.perform m
  have hstarted := h.sound.not_created h.started m
  have hfruitless {y : Tenure L π} (hy : y.call = some (.starting (.started (.error (.error e))))) :
      ∀ call ∈ y.call, call.Fruitless := fun call hcall => by
    rw [hy] at hcall
    obtain rfl := Option.some.inj hcall
    trivial
  have hrests (hcall : (x.perform m).call = some (.starting (.started (.error (.error e))))) :=
    h.sound.rests_perform h.started h.rests (hfruitless h.call) (hfruitless hcall)
  have hbusy := h.sound.busy h.call m
  generalize x.perform m = x' at hsound hstarted hrests hbusy
  cases hbusy with
  | rests hnot => exact .inr ⟨⟨hsound, hstarted, hrests h.call, h.call⟩, hnot .caller⟩
  | task hready => exact absurd hready (h.rests.dormant.wait_ne _ _)
  | late | elsewhere =>
    refine .inr ⟨⟨hsound, hstarted, hrests h.call, h.call⟩, fun hacts => ?_⟩
    obtain ⟨now, hm, -⟩ := hacts
    cases hm
  | calls => exact .inl ⟨rfl, rfl⟩
  | returns hreturns =>
    -- The error is there already, and nobody gives up a start that has nothing to wait for.
    cases hreturns

end Tenure

/-- What a daemon is like after a start that has failed: there is nothing left of the start, the
projections and the rules are still those from before, and the daemon accepts nothing more. -/
structure Daemon.Spent [EventLog L] [Projection π] (d₀ d : Daemon L π) : Prop where
  supervisor : d.supervisor = none
  tasks : d.tasks = []
  projections : d.projections = d₀.projections
  policy : d.policy = d₀.policy
  start : ∀ now, d.start now = (.started (.error (.error (d.wrongState .created))), d)
  addProjection : ∀ p, d.addProjection p = .error (d.wrongState .created)
  changePolicy : ∀ change, d.changePolicy change = .error (d.wrongState .created)
  addRule : ∀ filter chain, d.addRule filter chain = .error (d.wrongState .created)

/-- A daemon that rests and was not left as it was made is spent. -/
theorem Daemon.Rests.spent [EventLog L] [Projection π] {d₀ d : Daemon L π} (h : d₀.Rests d)
    (hstate : d.state ≠ .created) : d₀.Spent d where
  supervisor := h.dormant.supervisor
  tasks := h.dormant.tasks_eq
  projections := h.projections
  policy := h.policy
  start := start_of_ne hstate
  addProjection := addProjection_of_ne hstate
  changePolicy := changePolicy_of_ne hstate
  addRule _ _ := changePolicy_of_ne hstate _

/-! ## Courses -/

namespace TenureCourse

variable [EventLog L] [Projection π] {x : TenureCourse L π}

/-- With one move someone begins to start a daemon, and with another one the log fails under the
first scan. -/
structure FalseStart (x : TenureCourse L π) (n i : ℕ) (e : Error) : Prop where
  begins : ∃ now, x.move n = .start now
  free : (x.state n).isFree = true
  created : (x.state n).daemon.state = .created
  later : n < i
  fails : ∃ now scan, x.move i = .call now ∧ scan.wait now = .ready ∧
    (x.state i).call = some (.starting (.starting scan)) ∧
      (scan.pass.step (x.state i).daemon.commons.log ((x.state i).daemon.commons.time now)).1 =
        .error (.error e)

/-- A start that fails is returned to whoever starts the daemon. -/
theorem leads_failed (d₀ : Daemon L π) (e : Error) :
    Leads (Tenure.Failing d₀ e) (Tenure.Failed e) (fun _ => (0 : ℕ)) (fun _ a => a = .caller) := by
  refine ⟨fun _ _ => ⟨_, rfl⟩, fun x a h ha => ⟨0, ?_⟩, fun x m h => ?_⟩
  · rw [ha, Tenure.wait, h.call]
    rfl
  · rcases h.perform m with hfailed | ⟨hfailing, hnot⟩
    · exact .inl hfailed
    · refine .inr ⟨hfailing, .inr ⟨rfl, fun a ha => ⟨ha, ?_⟩⟩⟩
      rw [ha]
      exact hnot

namespace FalseStart

variable {n i : ℕ} {e : Error} (h : x.FalseStart n i e)

include h

/-- After the start the daemon is not left as it was made. -/
theorem not_created {k : ℕ} (hk : n < k) : (x.state k).daemon.state ≠ .created := by
  obtain ⟨now, hm⟩ := h.begins
  induction k, hk using Nat.le_induction with
  | base =>
    have hnext : x.state (n + 1) = (x.state n).perform (.start now) := hm ▸ rfl
    rw [hnext]
    exact ((x.sound n).start_rests h.free h.created now).2.2.1
  | succ k hk ih => exact (x.sound k).not_created ih (x.move k)

/-- The first scan is under way until the log fails. -/
theorem starting {k : ℕ} (hk : n < k) (hki : k ≤ i) :
    ∃ scan, (x.state k).call = some (.starting (.starting scan)) := by
  obtain ⟨now, scan, -, -, hcall, -⟩ := h.fails
  -- Backwards from the failure: no start begins any more, so this one has been under way.
  induction hki using Nat.decreasingInduction with
  | self => exact ⟨scan, hcall⟩
  | of_succ k hki ih =>
    obtain ⟨scan', hnext⟩ := ih (by omega)
    obtain ⟨a, ha, hsame | ⟨now', hsame⟩⟩ :=
      (x.sound k).starting_of_perform (h.not_created hk) (x.move k) hnext
    · exact ⟨scan', hsame ▸ ha⟩
    · cases a with
      | starting scan'' => exact ⟨scan'', ha⟩
      | _ => cases hsame

/-- After the move with which the log fails the error is there. -/
theorem failing : (x.state (i + 1)).call = some (.starting (.started (.error (.error e)))) := by
  obtain ⟨now, scan, hm, hready, hcall, hfails⟩ := h.fails
  have hended := Scan.ended_of_error hfails
  have hnext : x.state (i + 1) = (x.state i).perform (.call now) := hm ▸ rfl
  have hwait : (DaemonCall.starting (.starting scan)).wait (x.state i).daemon now = .ready := hready
  rw [hnext]
  simp only [Tenure.perform, hcall, if_pos hwait]
  rcases hstep : scan.step (x.state i).daemon.commons now with ⟨next, c'⟩
  rw [hstep] at hended
  obtain rfl : next = .ended (.error (.error e)) := hended
  simp only [DaemonCall.step, AgentCall.step, hstep]

/-- Nothing is set off until the log fails. -/
theorem fruitless {k : ℕ} (hk : n < k) (hki : k ≤ i + 1) :
    ∀ call ∈ (x.state k).call, call.Fruitless := by
  intro call hcall
  rcases Nat.le_or_eq_of_le_succ hki with hle | rfl
  · obtain ⟨scan, hscan⟩ := h.starting hk hle
    obtain rfl := Option.some.inj (hscan.symm.trans hcall)
    trivial
  · obtain rfl := Option.some.inj (h.failing.symm.trans hcall)
    trivial

/-- The daemon rests as before as long as nothing is set off. -/
theorem rests {m : ℕ} (hm : n < m)
    (hfruitless : ∀ k, n < k → k ≤ m → ∀ call ∈ (x.state k).call, call.Fruitless) :
    (x.state n).daemon.Rests (x.state m).daemon := by
  obtain ⟨now, hstart⟩ := h.begins
  induction m, hm using Nat.le_induction with
  | base =>
    have hnext : x.state (n + 1) = (x.state n).perform (.start now) := hstart ▸ rfl
    rw [hnext]
    exact ((x.sound n).start_rests h.free h.created now).2.1
  | succ m hm ih =>
    exact (x.sound m).rests_perform (h.not_created hm)
      (ih fun k hk hkm => hfruitless k hk (Nat.le_succ_of_le hkm))
      (hfruitless m hm (Nat.le_succ m)) (hfruitless (m + 1) (Nat.lt_succ_of_lt hm) le_rfl)

/-- Once the start has failed, no start is under way any more. -/
theorem not_starting {j : ℕ} (hj : n < j)
    (hfailed : (x.state j).call = some (.started (.error (.error e)))) {k : ℕ} (hk : j ≤ k)
    (a : AgentCall) : (x.state k).call ≠ some (.starting a) := by
  induction k, hk using Nat.le_induction generalizing a with
  | base =>
    rw [hfailed]
    exact fun heq => by cases heq
  | succ k hk ih =>
    intro hnext
    obtain ⟨a', ha', -⟩ :=
      (x.sound k).starting_of_perform (h.not_created (hj.trans_le hk)) (x.move k) hnext
    exact ih a' ha'

end FalseStart

/-- A start in which the log fails comes to an end on a fair course. Until then nothing on record
and nothing published has been changed by it, and nothing is left of it afterwards. -/
theorem Fair.exists_failed [RowedLog L] (hx : x.Fair) {n i : ℕ} {e : Error}
    (h : x.FalseStart n i e) :
    ∃ j > i, (x.state j).Failed e ∧
      (∀ k, n ≤ k → k < j → (∀ c, x.move k ≠ .elsewhere c) →
        (x.state k).daemon.commons.Untouched (x.state (k + 1)).daemon.commons) ∧
      ∀ m ≥ j, (x.state n).daemon.Spent (x.state m).daemon := by
  have hin := h.later
  have hfailing : (x.state (i + 1)).Failing (x.state n).daemon e :=
    ⟨x.sound _, h.not_created (by omega), h.rests (by omega) fun k hk hki => h.fruitless hk hki,
      h.failing⟩
  obtain ⟨j, hj, hfailed, hthrough⟩ := hx.reaches (leads_failed _ e) hfailing
  -- Up to the end of the start it has set nothing off, and afterwards there is none.
  have hfruitless (k : ℕ) (hk : n < k) : ∀ call ∈ (x.state k).call, call.Fruitless := by
    intro call hcall
    by_cases hki : k ≤ i + 1
    · exact h.fruitless hk hki call hcall
    by_cases hkj : k < j
    · obtain rfl := Option.some.inj ((hthrough k (by omega) hkj).call.symm.trans hcall)
      trivial
    · cases call with
      | starting a =>
        exact absurd hcall (h.not_starting (by omega) hfailed.call (not_lt.mp hkj) a)
      | _ => trivial
  have hrests (k : ℕ) (hk : n < k) : (x.state n).daemon.Rests (x.state k).daemon :=
    h.rests hk fun k hk _ => hfruitless k hk
  refine ⟨j, by omega, hfailed, fun k hnk hkj hothers => ?_, fun m hm => ?_⟩
  · obtain rfl | hnk := hnk.eq_or_lt
    · obtain ⟨now, hstart⟩ := h.begins
      have hnext : x.state (n + 1) = (x.state n).perform (.start now) := hstart ▸ rfl
      obtain ⟨-, -, -, hlog, htracker⟩ := (x.sound n).start_rests h.free h.created now
      rw [hnext]
      exact ⟨congrArg RowedLog.rows hlog, htracker⟩
    · have hcall : ∃ a, (x.state k).call = some (.starting a) := by
        by_cases hki : k ≤ i
        · obtain ⟨scan, hscan⟩ := h.starting hnk hki
          exact ⟨_, hscan⟩
        · exact ⟨_, (hthrough k (by omega) hkj).call⟩
      obtain ⟨a, ha⟩ := hcall
      exact (x.sound k).untouched (hrests k hnk) ha (hfruitless k hnk _ ha)
        (hfruitless (k + 1) (by omega)) hothers
  · exact (hrests m (by omega)).spent (h.not_created (by omega))

/-- A start under whose first scan the log fails returns its error and changes nothing on record and
nothing published. The daemon has failed, with the projections and the rules that it had, without a
supervisor and without tasks, and refuses everything from then on that is possible before the start
only. Whatever has happened to a daemon that nobody has at the moment, it can be shut down, and this
comes to an end on every fair course. What has been shut down stays so and is not changed by another
shutdown. -/
theorem fails_and_winds_down [RowedLog L] (x : TenureCourse L π) :
    (x.Fair → ∀ n i e, x.FalseStart n i e → ∃ j > i, (x.state j).Failed e ∧
      (∀ k, n ≤ k → k < j → (∀ c, x.move k ≠ .elsewhere c) →
        (x.state k).daemon.commons.Untouched (x.state (k + 1)).daemon.commons) ∧
      ∀ m ≥ j, (x.state n).daemon.Spent (x.state m).daemon) ∧
    (∀ n, (x.state n).isFree = true →
      (∃ y : TenureCourse L π, y.Fair ∧ y.state n = x.state n ∧ y.move n = .shutdown) ∧
      ∀ y : TenureCourse L π, y.Fair → y.state n = x.state n → y.move n = .shutdown →
        ∃ m > n, (y.state m).Wound) ∧
    ∀ n, (x.state n).daemon.state = .stopped → ∀ m ≥ n, (x.state m).daemon.state = .stopped ∧
      (x.state m).daemon.beginShutdown = (.stopped, (x.state m).daemon) := by
  refine ⟨fun hx n i e h => hx.exists_failed h, fun n hfree => ⟨x.exists_fair n .shutdown, ?_⟩,
    fun n hstopped m hm => ?_⟩
  · intro y hy hstate hmove
    exact hy.exists_wound hmove (hstate ▸ hfree)
  have hstate : (x.state m).daemon.state = .stopped := by
    induction m, hm using Nat.le_induction with
    | base => exact hstopped
    | succ m hm ih => exact (x.sound m).stopped_perform ih (x.move m)
  exact ⟨hstate, Daemon.beginShutdown_of_stopped hstate⟩

/-! ## A rehearsal -/

omit [EventLog L] [Projection π] in
/-- The course on which some moves are made and the call returns again and again afterwards. -/
def ofMoves (config : Config.Daemon) (log : L) (origin : Timestamp)
    (moves : List (TenureMove L π)) : TenureCourse L π :=
  ⟨config, log, origin, fun n => moves.getD n .returns⟩

/-- A course on which the call has returned at last and nothing was set off is fair. -/
theorem fair_ofMoves {config : Config.Daemon} {log : L} {origin : Timestamp}
    {moves : List (TenureMove L π)}
    (hcall : ((ofMoves config log origin moves).state (moves.length + 1)).call = none)
    (hdormant : ((ofMoves config log origin moves).state (moves.length + 1)).daemon.Dormant) :
    (ofMoves config log origin moves).Fair := by
  intro a n
  have hstays (k : ℕ) (hk : moves.length + 1 ≤ k) : (ofMoves config log origin moves).state k =
      (ofMoves config log origin moves).state (moves.length + 1) := by
    induction k, hk using Nat.le_induction with
    | base => rfl
    | succ k hk ih =>
      have hmove : (ofMoves config log origin moves).move k = .returns := by
        simp [ofMoves, (by omega : moves.length ≤ k)]
      rw [state, ih, hmove, Tenure.perform, hcall]
      exact congrArg (fun call => Tenure.mk _ call _) hcall.symm
  refine ⟨max n (moves.length + 1), le_max_left _ _, .inr fun now => ?_⟩
  rw [hstays _ (le_max_right _ _)]
  cases a with
  | caller => simp [Tenure.wait, hcall]
  | task t => exact hdormant.wait_ne now t

/-- A log in which a position is missing. -/
def gappedLog : MemoryLog :=
  (MemoryLog.commit {} 1 ⟨"E", [], ⟨0, false⟩, false⟩).commit 3 ⟨"E", [], ⟨0, false⟩, false⟩

/-- Someone adds a projection and starts the daemon. The log fails when the mark is to be recorded.
Then the daemon is shut down. -/
def failingOnRecord : TenureCourse MemoryLog Rehearsal.ScriptedProjection :=
  ofMoves {} gappedLog ⟨0, false⟩
    [.project (Daemon.consuming ⟨"T", "All"⟩), .start 0, .call 0, .call 0,
      .elsewhere { log := { gappedLog with failNext := 1 }, origin := ⟨0, false⟩ }, .call 0,
      .call 0, .returns, .shutdown, .call 0, .call 0, .call 0, .call 0]

/-- The log fails when the mark is to be recorded: the start fails, and a shutdown comes to its end.
-/
theorem fails_and_winds_down_on_record :
    failingOnRecord.Fair ∧ failingOnRecord.FalseStart 1 5 (.injected "persist_mark") ∧
      (∃ j > 5, (failingOnRecord.state j).Failed (.injected "persist_mark") ∧
        (failingOnRecord.state 1).daemon.Spent (failingOnRecord.state j).daemon) ∧
        failingOnRecord.move 8 = .shutdown ∧ ∃ m > 8, (failingOnRecord.state m).Wound := by
  have hfair : failingOnRecord.Fair := fair_ofMoves rfl ⟨rfl, rfl, ⟨rfl, rfl⟩⟩
  have hfails : failingOnRecord.FalseStart 1 5 (.injected "persist_mark") :=
    ⟨⟨0, rfl⟩, rfl, rfl, by decide, 0, _, rfl, rfl, rfl, rfl⟩
  obtain ⟨hstart, hshutdown, -⟩ := failingOnRecord.fails_and_winds_down
  obtain ⟨j, hj, hfailed, -, hspent⟩ := hstart hfair 1 5 _ hfails
  exact ⟨hfair, hfails, ⟨j, hj, hfailed, hspent j le_rfl⟩, rfl,
    (hshutdown 8 rfl).2 failingOnRecord hfair rfl rfl⟩

end TenureCourse

end Tidemark
