import Mathlib.Data.Prod.Lex
import Mathlib.Logic.Encodable.Basic
import Mathlib.Order.WellFounded
import Mathlib.Tactic.DeriveCountable
import Tidemark.Proofs.Daemon.Tenure

/-!
# A daemon that is shut down winds down

Whoever shuts a daemon down waits for the heartbeat of the agent, for its loop, for the consumers
one after the other, but not for long, and for the commands. At any time somebody is awaited who can
go on, now or later (`DaemonCall.Awaits`), and a step of his leaves less to do (`DaemonCall.left`).
So a shutdown ends, whatever has happened to the daemon before and whatever others do meanwhile, if
everyone who can go on does so some time (`TenureCourse.Fair.exists_wound`).
-/

namespace Tidemark

variable {L π : Type}

/-! ## Daemons that someone has to himself -/

deriving instance Countable for AgentTask, DaemonTask, TenureActor

namespace Tenure

variable [EventLog L] [Projection π]

/-- What a move means for a daemon that someone has to himself. -/
inductive Busy (x : Tenure L π) (call : DaemonCall) : TenureMove L π → Tenure L π → Prop where
  /-- Nothing happens. -/
  | rests {m : TenureMove L π} (h : ∀ a, ¬ x.Acts m a) : Busy x call m x
  /-- A task takes a step. -/
  | task {now : Moment} {task : DaemonTask} (h : x.daemon.wait now task = .ready) :
    Busy x call (.task now task) { x with daemon := x.daemon.step now task }
  /-- A beat comes late. -/
  | late (now : Moment) : Busy x call (.late now) { x with daemon := { x.daemon with
      agent := (x.daemon.agent.lateBeat x.daemon.commons now).1
      commons := (x.daemon.agent.lateBeat x.daemon.commons now).2 } }
  /-- The call takes a step. -/
  | calls {now : Moment} (h : call.wait x.daemon now = .ready) : Busy x call (.call now)
      { x with daemon := (call.step x.daemon now).2, call := some (call.step x.daemon now).1 }
  /-- The call returns. -/
  | returns (h : call.mayReturn = true) : Busy x call .returns { x with call := none }
  /-- Others change what they share with the daemon. -/
  | elsewhere (commons : Commons L) :
    Busy x call (.elsewhere commons) { x with daemon := { x.daemon with commons := commons } }

/-- Every move means something for a daemon that someone has to himself. -/
theorem Sound.busy {x : Tenure L π} (h : x.Sound) {call : DaemonCall} (hcall : x.call = some call)
    (m : TenureMove L π) : x.Busy call m (x.perform m) := by
  have hreports := h.alone call hcall
  have hnone : x.call ≠ none := by simp [hcall]
  have hhappens := x.happens m
  generalize x.perform m = x' at hhappens
  cases hhappens with
  | idles hnot => exact .rests hnot
  | task hready => exact .task hready
  | late now => exact .late now
  | projects hfree | governs hfree | starts _ hfree | shuts hfree =>
    exact absurd (isFree_iff.mp hfree).1 hnone
  | calls hcall' hready =>
    obtain rfl := Option.some.inj (hcall.symm.trans hcall')
    exact .calls hready
  | returns hreturns =>
    rw [hcall] at hreturns
    exact .returns hreturns
  | reports _ _ hcall' => exact absurd hcall' hnone
  | turns hj | withdraws hj =>
    rw [hreports] at hj
    cases hj
  | elsewhere commons => exact .elsewhere commons

end Tenure

/-! ## Fairness -/

namespace TenureCourse

variable [EventLog L] [Projection π]

/-- Whoever can go on, now or later, takes a step some time, or there comes a time when he has
nothing to go on with. -/
def Fair (x : TenureCourse L π) : Prop :=
  ∀ a n, ∃ m ≥ n, (x.state m).Acts (x.move m) a ∨ ∀ now, (x.state m).wait now a ≠ .ready

/-- Those who go on can take turns. -/
theorem exists_turns : ∃ turn : ℕ → TenureActor, ∀ a n, ∃ k ≥ n, turn k = a := by
  obtain ⟨f, hf⟩ := exists_surjective_nat TenureActor
  refine ⟨fun k => f k.unpair.1, fun a n => ?_⟩
  obtain ⟨i, rfl⟩ := hf a
  exact ⟨Nat.pair i n, Nat.right_le_pair i n, by simp⟩

/-- Whatever has happened to a daemon, and whatever happens to it next, it can go on fairly. -/
theorem exists_fair (x : TenureCourse L π) (n : ℕ) (m : TenureMove L π) :
    ∃ y : TenureCourse L π, y.Fair ∧ y.state n = x.state n ∧ y.move n = m := by
  obtain ⟨turn, hturn⟩ := exists_turns
  -- Whoever has the turn takes a step at a moment at which he can, if there is one.
  have hnext (s : Tenure L π) (a : TenureActor) : ∃ now : Moment,
      s.wait now a = .ready ∨ ∀ now, s.wait now a ≠ .ready := by
    by_cases h : ∃ now, s.wait now a = .ready
    · exact ⟨h.choose, .inl h.choose_spec⟩
    · exact ⟨0, .inr (not_exists.mp h)⟩
  choose next hnext using hnext
  let run : ℕ → Tenure L π :=
    Nat.rec ((x.state n).perform m) fun k s => s.perform ((turn k).move (next s (turn k)))
  let y : TenureCourse L π := ⟨x.config, x.log, x.origin, fun k =>
    if k < n then x.move k else if k = n then m
    else (turn (k - (n + 1))).move (next (run (k - (n + 1))) (turn (k - (n + 1))))⟩
  have hbefore (k : ℕ) (hk : k ≤ n) : y.state k = x.state k := by
    induction k with
    | zero => rfl
    | succ k ih =>
      have hmove : y.move k = x.move k := if_pos hk
      rw [state, ih (by omega), hmove]
      rfl
  have hat : y.move n = m := by simp [y]
  have hmove (k : ℕ) : y.move (n + 1 + k) = (turn k).move (next (run k) (turn k)) := by
    simp [y, show ¬ n + 1 + k < n by omega, show n + 1 + k ≠ n by omega]
  have hafter (k : ℕ) : y.state (n + 1 + k) = run k := by
    induction k with
    | zero =>
      rw [Nat.add_zero, state, hbefore n le_rfl, hat]
      rfl
    | succ k ih => rw [← Nat.add_assoc, state, ih, hmove]
  refine ⟨y, fun a j => ?_, hbefore n le_rfl, hat⟩
  obtain ⟨k, hk, hturnk⟩ := hturn a j
  refine ⟨n + 1 + k, by omega, ?_⟩
  rw [hafter k, hmove k, hturnk]
  exact (hnext (run k) a).imp_left fun hready => ⟨next (run k) a, rfl, hready⟩

/-- One condition leads to another one: there is always somebody awaited who can go on, now or
later. With every move the other condition is reached, or less is left to do, or as much is left and
those who are awaited did not move and stay awaited. -/
structure Leads {β : Type} [Preorder β] (P Q : Tenure L π → Prop) (left : Tenure L π → β)
    (awaits : Tenure L π → TenureActor → Prop) : Prop where
  someone : ∀ x, P x → ∃ a, awaits x a
  ready : ∀ x a, P x → awaits x a → ∃ now, x.wait now a = .ready
  step : ∀ x m, P x → Q (x.perform m) ∨ P (x.perform m) ∧
    (left (x.perform m) < left x ∨
      left (x.perform m) = left x ∧ ∀ a, awaits x a → awaits (x.perform m) a ∧ ¬ x.Acts m a)

/-- On a fair course a condition is reached to which another one leads. -/
theorem Fair.reaches {x : TenureCourse L π} (hx : x.Fair) {β : Type} [Preorder β]
    [WellFoundedLT β] {P Q : Tenure L π → Prop} {left : Tenure L π → β}
    {awaits : Tenure L π → TenureActor → Prop} (h : Leads P Q left awaits) {n : ℕ}
    (hn : P (x.state n)) : ∃ m > n, Q (x.state m) ∧ ∀ k, n ≤ k → k < m → P (x.state k) := by
  -- Up to the time when the other condition is reached the one holds.
  have hthrough (m : ℕ) (hm : ∀ k, n < k → k ≤ m → ¬ Q (x.state k)) (hnm : n ≤ m) :
      P (x.state m) := by
    induction m, hnm using Nat.le_induction with
    | base => exact hn
    | succ m hnm ih =>
      have hP := ih fun k hk hkm => hm k hk (by omega)
      exact ((h.step _ (x.move m) hP).resolve_left (hm (m + 1) (by omega) le_rfl)).1
  suffices hex : ∃ m, n < m ∧ Q (x.state m) by
    classical
    obtain ⟨hlt, hQ⟩ := Nat.find_spec hex
    refine ⟨Nat.find hex, hlt, hQ, fun k hk hkm => hthrough k (fun j hj hjk hQ' => ?_) hk⟩
    exact Nat.find_min hex (hjk.trans_lt hkm) ⟨hj, hQ'⟩
  by_contra! hnever
  have hP (k : ℕ) (hk : n ≤ k) : P (x.state k) := hthrough k (fun j hj _ => hnever j hj) hk
  have hstep (k : ℕ) (hk : n ≤ k) :=
    (h.step _ (x.move k) (hP k hk)).resolve_left (hnever (k + 1) (by omega))
  have hnone (b : β) : ∀ k ≥ n, left (x.state k) ≠ b := by
    induction b using WellFoundedLT.induction with
    | ind b ih =>
      rintro k hk rfl
      obtain ⟨a, ha⟩ := h.someone _ (hP k hk)
      obtain ⟨m, hkm, hm⟩ := hx a k
      -- As long as less is not left to do, whoever is awaited stays so.
      have hstays (j : ℕ) (hj : k ≤ j) :
          left (x.state j) = left (x.state k) ∧ awaits (x.state j) a := by
        induction j, hj using Nat.le_induction with
        | base => exact ⟨rfl, ha⟩
        | succ j hj hstays =>
          rcases (hstep j (by omega)).2 with hless | ⟨hsame, hkept⟩
          · exact absurd rfl (ih _ (hless.trans_eq hstays.1) (j + 1) (by omega))
          · exact ⟨hsame.trans hstays.1, (hkept a hstays.2).1⟩
      obtain ⟨hleft, hawaits⟩ := hstays m hkm
      rcases hm with hacts | hnot
      · rcases (hstep m (by omega)).2 with hless | ⟨-, hkept⟩
        · exact absurd rfl (ih _ (hless.trans_eq hleft) (m + 1) (by omega))
        · exact (hkept a hawaits).2 hacts
      · obtain ⟨now, hready⟩ := h.ready _ a (hP m (by omega)) hawaits
        exact hnot now hready
  exact hnone _ n le_rfl rfl

end TenureCourse

/-! ## What is left to do -/

/-- The call shuts a daemon down, and is not over. -/
def DaemonCall.Winds : DaemonCall → Prop
  | .stopping _ | .joining _ _ | .draining => True
  | _ => False

/-- A shutdown is not given up. -/
theorem DaemonCall.Winds.not_mayReturn {call : DaemonCall} (h : call.Winds) :
    ¬ call.mayReturn = true := by
  cases call with
  | stopping | joining | draining => exact Bool.false_ne_true
  | _ => exact h.elim

/-- What is left to do until a daemon has been shut down: the number of parts of the shutdown that
are ahead, and what is left of the present one. -/
def DaemonCall.left (d : Daemon L π) : DaemonCall → ℕ ×ₗ ℕ
  | .stopping .endingHeartbeat => toLex (4, d.agent.beatsLeft)
  | .stopping .endingLoop => toLex (3, d.agent.stepsLeft)
  | .stopping _ => toLex (2, 0)
  | .joining k _ => toLex (1, d.consumers.length - k)
  | .draining => toLex (0, d.supervisor.elim 0 (·.commands.burden d.posts))
  | _ => toLex (0, 0)

/-- Those on whom it depends that a shutdown goes on. -/
def DaemonCall.Awaits (d : Daemon L π) : DaemonCall → TenureActor → Prop
  | .stopping .endingHeartbeat, .caller => d.agent.beatsLeft = 0
  | .stopping .endingHeartbeat, .task t => t = .agent .heartbeat ∧ d.agent.beatsLeft ≠ 0
  | .stopping .endingLoop, .caller => d.agent.stepsLeft = 0
  | .stopping .endingLoop, .task t =>
    ∃ k, t = .agent (.loop k) ∧ d.agent.watched = some k ∧ d.agent.stepsLeft ≠ 0
  | .draining, .caller => ∀ s ∈ d.supervisor, s.commands.isDrained = true
  | .draining, .task t => ∃ s ∈ d.supervisor, Awaited s.commands d.posts t
  | _, a => a = .caller

/-- Less is left to do if less is left of the same part. -/
theorem left_lt_of_lt {part a b : ℕ} (h : a < b) : toLex (part, a) < toLex (part, b) :=
  Prod.Lex.toLex_lt_toLex.mpr (.inr ⟨rfl, h⟩)

/-- Less is left to do if fewer parts are ahead. -/
theorem left_lt_of_part {part part' a b : ℕ} (h : part < part') :
    toLex (part, a) < toLex (part', b) :=
  Prod.Lex.toLex_lt_toLex.mpr (.inl h)

/-- With a turn of someone, or of nobody who is of interest, less is left to do, or as much, and
then those who are awaited stay so and did not have the turn. -/
def DaemonCall.Lessens (d d' : Daemon L π) (turn : Option TenureActor) (call : DaemonCall) : Prop :=
  call.left d' < call.left d ∨ call.left d' = call.left d ∧
    ∀ a, call.Awaits d a → call.Awaits d' a ∧ turn ≠ some a

section Steps

variable {d d' : Daemon L π} {turn : Option TenureActor} {call : DaemonCall}

/-- A turn while the heartbeat is waited for. -/
theorem DaemonCall.lessens_of_beats (hturn : turn ≠ some .caller)
    (h : d'.agent.beatsLeft < d.agent.beatsLeft ∨
      d'.agent.beatsLeft = d.agent.beatsLeft ∧ turn ≠ some (.task (.agent .heartbeat))) :
    (stopping .endingHeartbeat).Lessens d d' turn := by
  rcases h with hless | ⟨hsame, hnot⟩
  · exact .inl (left_lt_of_lt hless)
  · refine .inr ⟨congrArg (fun n => toLex (4, n)) hsame, fun a ha => ?_⟩
    cases a with
    | caller => exact ⟨hsame.trans ha, hturn⟩
    | task t =>
      obtain ⟨rfl, hleft⟩ := ha
      exact ⟨⟨rfl, hsame ▸ hleft⟩, hnot⟩

/-- A turn while the loop is waited for. -/
theorem DaemonCall.lessens_of_steps (hturn : turn ≠ some .caller)
    (hwatched : d'.agent.watched = d.agent.watched)
    (h : d'.agent.stepsLeft < d.agent.stepsLeft ∨ d'.agent.stepsLeft = d.agent.stepsLeft ∧
      ∀ k, turn = some (.task (.agent (.loop k))) → d.agent.watched = some k →
        d.agent.stepsLeft = 0) :
    (stopping .endingLoop).Lessens d d' turn := by
  rcases h with hless | ⟨hsame, hnot⟩
  · exact .inl (left_lt_of_lt hless)
  · refine .inr ⟨congrArg (fun n => toLex (3, n)) hsame, fun a ha => ?_⟩
    cases a with
    | caller => exact ⟨hsame.trans ha, hturn⟩
    | task t =>
      obtain ⟨k, rfl, hk, hleft⟩ := ha
      exact ⟨⟨k, rfl, hwatched.trans hk, hsame ▸ hleft⟩, fun heq => hleft (hnot k heq hk)⟩

/-- A turn while a consumer is waited for. -/
theorem DaemonCall.lessens_of_consumers {k : ℕ} {due : Moment} (hturn : turn ≠ some .caller)
    (h : d'.consumers.length = d.consumers.length) : (joining k due).Lessens d d' turn :=
  .inr ⟨congrArg (fun n => toLex (1, n - k)) h, fun _ ha => ⟨ha, ha ▸ hturn⟩⟩

/-- A turn while the commands are waited for. -/
theorem DaemonCall.lessens_of_commands {s s' : Supervisor} (hturn : turn ≠ some .caller)
    (hs : d.supervisor = some s) (hs' : d'.supervisor = some s')
    (h : s'.commands.burden d'.posts < s.commands.burden d.posts ∨
      s'.commands = s.commands ∧ d'.posts.map (·.tickets) = d.posts.map (·.tickets) ∧
        s'.commands.burden d'.posts = s.commands.burden d.posts ∧
          ∀ t, turn = some (.task t) → ¬ Awaited s.commands d.posts t) :
    draining.Lessens d d' turn := by
  unfold Lessens left
  rw [hs, hs']
  rcases h with hless | ⟨hsame, htickets, hburden, hnot⟩
  · exact .inl (left_lt_of_lt hless)
  · refine .inr ⟨congrArg (fun n => toLex (0, n)) hburden, fun a ha => ?_⟩
    cases a with
    | caller =>
      refine ⟨fun s'' hs'' => ?_, hturn⟩
      obtain rfl := Option.some.inj (hs'.symm.trans hs'')
      exact hsame ▸ ha s hs
    | task t =>
      obtain ⟨s'', hs'', ha⟩ := ha
      obtain rfl := Option.some.inj (hs.symm.trans hs'')
      exact ⟨⟨s', hs', hsame ▸ ha.of_tickets htickets⟩, fun heq => hnot t heq ha⟩

/-- Whatever keeps the numbers and the blocks on which it depends leaves as much to do. -/
theorem DaemonCall.lessens_of_same (hbeats : d'.agent.beatsLeft = d.agent.beatsLeft)
    (hsteps : call = .stopping .endingLoop →
      d'.agent.watched = d.agent.watched ∧ d'.agent.stepsLeft = d.agent.stepsLeft)
    (hconsumers : d'.consumers = d.consumers) (hsupervisor : d'.supervisor = d.supervisor) :
    call.Lessens d d' none := by
  have hposts : d'.posts = d.posts := congrArg (List.map _) hconsumers
  cases call with
  | stopping a =>
    cases a with
    | endingHeartbeat => exact lessens_of_beats (by simp) (.inr ⟨hbeats, by simp⟩)
    | endingLoop =>
      obtain ⟨hwatched, hsame⟩ := hsteps rfl
      exact lessens_of_steps (by simp) hwatched (.inr ⟨hsame, by simp⟩)
    | _ => exact .inr ⟨rfl, fun a ha => ⟨ha, by simp⟩⟩
  | joining k due => exact lessens_of_consumers (by simp) (congrArg _ hconsumers)
  | draining =>
    refine .inr ⟨?_, fun a ha => ⟨?_, by simp⟩⟩
    · simp only [left, hsupervisor, hposts]
    · cases a <;> simpa only [Awaits, hsupervisor, hposts] using ha
  | _ => exact .inr ⟨rfl, fun a ha => ⟨ha, by simp⟩⟩

/-- Somebody is awaited as long as a shutdown is not over. -/
theorem DaemonCall.Suits.exists_awaited (hsuits : call.Suits d) (hwinds : call.Winds)
    (hattended : d.Attended []) : ∃ a, call.Awaits d a := by
  cases call with
  | stopping a =>
    cases a with
    | starting | started => exact hsuits.2.elim
    | endingHeartbeat =>
      by_cases hleft : d.agent.beatsLeft = 0
      · exact ⟨.caller, hleft⟩
      · exact ⟨.task _, rfl, hleft⟩
    | endingLoop =>
      by_cases hleft : d.agent.stepsLeft = 0
      · exact ⟨.caller, hleft⟩
      · cases hk : d.agent.watched with
        | none => exact absurd (by simp [Agent.stepsLeft, hk]) hleft
        | some k => exact ⟨.task _, k, rfl, hk, hleft⟩
    | stopped => exact ⟨.caller, rfl⟩
  | joining k due => exact ⟨.caller, rfl⟩
  | draining =>
    cases hs : d.supervisor with
    | none => exact ⟨.caller, fun s h => by cases hs.symm.trans h⟩
    | some s =>
      have hcommands := hattended.commands s hs
      rw [List.append_nil] at hcommands
      cases hdrained : s.commands.isDrained with
      | true =>
        refine ⟨.caller, fun s' hs' => ?_⟩
        obtain rfl := Option.some.inj (hs.symm.trans hs')
        exact hdrained
      | false =>
        obtain ⟨t, ht⟩ := Awaited.exists_of_undrained hcommands (hsuits.2 s hs) hdrained
        exact ⟨.task t, s, hs, ht⟩
  | _ => exact hwinds.elim

/-- Whoever is awaited can go on, now or later. -/
theorem DaemonCall.Awaits.exists_ready {x : Tenure L π} (hcall : x.call = some call)
    (hsuits : call.Suits x.daemon) (hwinds : call.Winds) {a : TenureActor}
    (h : call.Awaits x.daemon a) : ∃ now, x.wait now a = .ready := by
  have hcaller (now : Moment) (hwait : call.wait x.daemon now = .ready) :
      ∃ now, x.wait now .caller = .ready := ⟨now, by rw [Tenure.wait, hcall]; exact hwait⟩
  cases call with
  | stopping agentCall =>
    cases agentCall with
    | starting | started => exact hsuits.2.elim
    | endingHeartbeat =>
      cases a with
      | caller =>
        refine hcaller 0 ?_
        simp [wait, AgentCall.wait, x.daemon.agent.beatsLeft_eq_zero_iff.mp h, Wait.for]
      | task t =>
        obtain ⟨rfl, hleft⟩ := h
        exact x.daemon.agent.exists_heartbeat_ready hleft
    | endingLoop =>
      cases a with
      | caller =>
        refine hcaller 0 ?_
        simp [wait, AgentCall.wait, x.daemon.agent.stepsLeft_eq_zero_iff.mp h, Wait.for]
      | task t =>
        obtain ⟨k, rfl, hk, hleft⟩ := h
        exact x.daemon.agent.exists_loop_ready hk hleft
    | stopped =>
      obtain rfl : a = .caller := h
      exact hcaller 0 rfl
  | joining k due =>
    obtain rfl : a = .caller := h
    exact hcaller due (by simp [wait, Wait.either, Wait.till])
  | draining =>
    cases a with
    | caller =>
      have hdrained : x.daemon.supervisor.all (·.commands.isDrained) = true :=
        Option.all_eq_true _ _ |>.mpr h
      exact hcaller 0 (by simp [wait, hdrained, Wait.for])
    | task t =>
      obtain ⟨s, hs, hawaited⟩ := h
      exact Daemon.exists_ready hs hawaited
  | _ => exact hwinds.elim

variable [EventLog L]

/-- With a beat that comes late nothing more is left to do. -/
theorem DaemonCall.Suits.lessens_late (hsuits : call.Suits d) (now : Moment) :
    call.Lessens d { d with
      agent := (d.agent.lateBeat d.commons now).1
      commons := (d.agent.lateBeat d.commons now).2 } none := by
  refine lessens_of_same (d.agent.beatsLeft_lateBeat d.commons now) (fun heq => ?_) rfl rfl
  subst heq
  rw [d.agent.lateBeat_of_heartbeat d.commons now hsuits.2.2]
  exact ⟨rfl, rfl⟩

variable [Projection π]

/-- With a step of a task less is left to do, or it is not the step of someone who is awaited. -/
theorem DaemonCall.Suits.lessens_step (hsuits : call.Suits d) (hwinds : call.Winds)
    (hattended : d.Attended []) {now : Moment} {task : DaemonTask}
    (hready : d.wait now task = .ready) :
    call.Lessens d (d.step now task) (some (.task task)) := by
  have hagent := (d.step_frame now task).2
  cases call with
  | stopping a =>
    obtain ⟨-, hstops⟩ := hsuits
    cases a with
    | starting | started => exact hstops.elim
    | endingHeartbeat =>
      refine lessens_of_beats (by simp) ?_
      cases task with
      | agent task =>
        rcases d.agent.beatsLeft_step d.commons now hstops hready with hless | ⟨hsame, hne⟩
        · exact .inl hless
        · exact .inr ⟨hsame, fun heq => hne (by cases heq; rfl)⟩
      | _ =>
        rw [hagent (by simp)]
        exact .inr ⟨rfl, by simp⟩
    | endingLoop =>
      obtain ⟨hstop, hnone⟩ := hstops
      cases task with
      | agent task =>
        obtain ⟨hwatched, hsteps⟩ := d.agent.stepsLeft_step d.commons now hstop hnone task
        refine lessens_of_steps (by simp) hwatched ?_
        rcases hsteps with hless | ⟨hsame, hnot⟩
        · exact .inl hless
        · exact .inr ⟨hsame, fun k heq => hnot k (by cases heq; rfl)⟩
      | _ =>
        have hsame := hagent (by simp)
        exact lessens_of_steps (by simp) (by rw [hsame]) (.inr ⟨by rw [hsame], by simp⟩)
    | stopped =>
      refine .inr ⟨rfl, fun a ha => ⟨ha, ?_⟩⟩
      obtain rfl : a = .caller := ha
      simp
  | joining k due => exact lessens_of_consumers (by simp) (d.consumers_step now task).2.1
  | draining =>
    cases hs : d.supervisor with
    | none =>
      -- A daemon that was never launched has no commands and gets none.
      have hs' := (d.consumers_step now task).1 hs
      right
      simp only [left, hs, hs']
      refine ⟨rfl, fun a ha => ?_⟩
      cases a with
      | caller => exact ⟨fun s h => (by cases hs'.symm.trans h), by simp⟩
      | task t =>
        obtain ⟨s, h, -⟩ := ha
        cases hs.symm.trans h
    | some s =>
      obtain ⟨s', hs', hturn⟩ := d.command_turn hattended.tidy hattended.projections hs now task
      have hcommands := hattended.commands s hs
      rw [List.append_nil] at hcommands
      refine lessens_of_commands (by simp) hs hs' ?_
      rcases hturn.burden hcommands (hsuits.2 s hs) with hless | ⟨hsame, htickets, hburden, hnot⟩
      · exact .inl hless
      · refine .inr ⟨hsame, htickets, hburden, fun t heq => ?_⟩
        obtain rfl := TenureActor.task.inj (Option.some.inj heq)
        exact hnot
  | _ => exact hwinds.elim

/-- The caller, when it is his turn, goes on to a part of which less is left, or the shutdown is
over. -/
theorem DaemonCall.Suits.winds_step (hsuits : call.Suits d) (hwinds : call.Winds) (now : Moment) :
    (call.step d now).1 = .stopped ∧ (call.step d now).2.state = .stopped ∨
      (call.step d now).1.Winds ∧ (call.step d now).1.left (call.step d now).2 < call.left d := by
  -- Whoever turns to a consumer has fewer consumers ahead, or has come to the commands.
  have hjoin (d' : Daemon L π) (k : ℕ) {b : ℕ × ℕ} (hb : k < d'.consumers.length →
      toLex (1, d'.consumers.length - k) < toLex b) (hb' : 0 < b.1) :
      (d'.join now k).1 = .stopped ∧ (d'.join now k).2.state = .stopped ∨
        (d'.join now k).1.Winds ∧ (d'.join now k).1.left (d'.join now k).2 < toLex b := by
    right
    unfold Daemon.join
    split_ifs with hk
    · exact ⟨trivial, hb hk⟩
    · exact ⟨trivial, left_lt_of_part hb'⟩
  cases call with
  | stopping a =>
    cases a with
    | starting | started => exact hsuits.2.elim
    | endingHeartbeat | endingLoop => exact .inr ⟨trivial, left_lt_of_part (Nat.lt_succ_self _)⟩
    | stopped =>
      exact hjoin { d with shutdown := true } 0 (fun _ => left_lt_of_part (by decide)) (by decide)
  | joining k due =>
    exact hjoin d (k + 1) (fun hk => left_lt_of_lt (by omega)) Nat.one_pos
  | draining => exact .inl ⟨rfl, rfl⟩
  | _ => exact hwinds.elim

end Steps

/-! ## Winding down -/

namespace Tenure

/-- What is left to do until a daemon has been shut down. -/
def left (x : Tenure L π) : ℕ ×ₗ ℕ := x.call.elim (toLex (0, 0)) (·.left x.daemon)

/-- Those on whom it depends that a shutdown goes on. -/
def Awaits (x : Tenure L π) (a : TenureActor) : Prop := ∃ call ∈ x.call, call.Awaits x.daemon a

/-- A daemon has been shut down. -/
structure Wound (x : Tenure L π) : Prop where
  call : x.call = some .stopped
  state : x.daemon.state = .stopped

/-- Someone shuts a daemon down. -/
structure Winding (x : Tenure L π) : Prop where
  sound : x.Sound
  winds : ∃ call, x.call = some call ∧ call.Winds

variable {x : Tenure L π}

/-- The call goes on as before with a daemon in which less is left to do. -/
theorem lessens {m : TenureMove L π} {call : DaemonCall} (hcall : x.call = some call)
    {d : Daemon L π} {turn : Option TenureActor} (h : call.Lessens x.daemon d turn)
    (hturn : ∀ a, x.Acts m a → turn = some a) :
    left { x with daemon := d } < x.left ∨ left { x with daemon := d } = x.left ∧
      ∀ a, x.Awaits a → Awaits { x with daemon := d } a ∧ ¬ x.Acts m a := by
  have hleft (d : Daemon L π) : left { x with daemon := d } = call.left d := by
    simp only [left, hcall, Option.elim_some]
  rw [hleft d, show x.left = call.left x.daemon from hleft x.daemon]
  rcases h with hless | ⟨hsame, hkept⟩
  · exact .inl hless
  refine .inr ⟨hsame, fun a ha => ?_⟩
  obtain ⟨call', hcall', ha⟩ := ha
  obtain rfl := Option.some.inj (hcall.symm.trans hcall')
  obtain ⟨ha', hnot⟩ := hkept a ha
  exact ⟨⟨call, hcall, ha'⟩, fun hacts => hnot (hturn a hacts)⟩

/-- Somebody is awaited as long as a shutdown is not over. -/
theorem Winding.exists_awaited (h : x.Winding) : ∃ a, x.Awaits a := by
  obtain ⟨hsound, call, hcall, hwinds⟩ := h
  have hattended := hsound.attended
  rw [hsound.alone call hcall] at hattended
  obtain ⟨a, ha⟩ := (hsound.call call hcall).exists_awaited hwinds hattended
  exact ⟨a, call, hcall, ha⟩

/-- Whoever is awaited can go on, now or later. -/
theorem Winding.exists_ready (h : x.Winding) {a : TenureActor} (ha : x.Awaits a) :
    ∃ now, x.wait now a = .ready := by
  obtain ⟨hsound, call, hcall, hwinds⟩ := h
  obtain ⟨call', hcall', ha⟩ := ha
  obtain rfl := Option.some.inj (hcall.symm.trans hcall')
  exact ha.exists_ready hcall (hsound.call call hcall) hwinds

variable [EventLog L] [Projection π]

/-- With a move, a shutdown is over, or less is left to do, or those who are awaited stay so and it
was not their move. -/
theorem Winding.perform (h : x.Winding) (m : TenureMove L π) :
    (x.perform m).Wound ∨ (x.perform m).Winding ∧
      ((x.perform m).left < x.left ∨ (x.perform m).left = x.left ∧
        ∀ a, x.Awaits a → (x.perform m).Awaits a ∧ ¬ x.Acts m a) := by
  obtain ⟨hsound, call, hcall, hwinds⟩ := h
  have hsuits := hsound.call call hcall
  have hattended := hsound.attended
  rw [hsound.alone call hcall] at hattended
  have hsound' := hsound.perform m
  have hbusy := hsound.busy hcall m
  generalize x.perform m = x' at hsound' hbusy
  cases hbusy with
  | rests hnot => exact .inr ⟨⟨hsound, call, hcall, hwinds⟩, .inr ⟨rfl, fun a ha => ⟨ha, hnot a⟩⟩⟩
  | @task now task hready =>
    refine .inr ⟨⟨hsound', call, hcall, hwinds⟩,
      lessens hcall (hsuits.lessens_step hwinds hattended hready) fun a hacts => ?_⟩
    obtain ⟨now', hm, -⟩ := hacts
    cases a with
    | caller => cases hm
    | task t =>
      cases hm
      rfl
  | late now =>
    refine .inr ⟨⟨hsound', call, hcall, hwinds⟩,
      lessens hcall (hsuits.lessens_late now) fun a hacts => ?_⟩
    obtain ⟨now', hm, -⟩ := hacts
    cases a <;> cases hm
  | @calls now hready =>
    rcases hsuits.winds_step hwinds now with ⟨hstopped, hstate⟩ | ⟨hwinds', hless⟩
    · exact .inl ⟨congrArg some hstopped, hstate⟩
    · refine .inr ⟨⟨hsound', _, rfl, hwinds'⟩, .inl ?_⟩
      simpa only [left, hcall, Option.elim_some] using hless
  | returns hreturns => exact absurd hreturns hwinds.not_mayReturn
  | elsewhere commons =>
    refine .inr ⟨⟨hsound', call, hcall, hwinds⟩,
      lessens hcall (DaemonCall.lessens_of_same rfl (fun _ => ⟨rfl, rfl⟩) rfl rfl)
        fun a hacts => ?_⟩
    obtain ⟨now', hm, -⟩ := hacts
    cases a <;> cases hm

/-- Whoever begins to shut a sound daemon down is done with that at once, or on his way. -/
theorem Sound.winds (h : x.Sound) (hfree : x.isFree = true) :
    (x.perform .shutdown).Wound ∨ (x.perform .shutdown).Winding := by
  have hsound := h.perform .shutdown
  simp only [Tenure.perform, if_pos hfree] at hsound ⊢
  unfold Daemon.beginShutdown at hsound ⊢
  split at hsound
  next hstate => exact .inl ⟨rfl, hstate⟩
  next => exact .inl ⟨rfl, rfl⟩
  next => exact .inr ⟨hsound, _, rfl, trivial⟩

end Tenure

namespace TenureCourse

variable [EventLog L] [Projection π]

/-- While someone shuts a daemon down, it is on its way to be shut down. -/
theorem leads_wound :
    Leads (L := L) (π := π) Tenure.Winding Tenure.Wound Tenure.left Tenure.Awaits :=
  ⟨fun _ h => h.exists_awaited, fun _ _ h ha => h.exists_ready ha, fun _ m h => h.perform m⟩

/-- Whoever begins to shut a daemon down comes to an end with that on a fair course. -/
theorem Fair.exists_wound {x : TenureCourse L π} (hx : x.Fair) {n : ℕ} (hm : x.move n = .shutdown)
    (hfree : (x.state n).isFree = true) : ∃ m > n, (x.state m).Wound := by
  -- Where nothing was started, or all has been shut down, there is nothing to wait for.
  have hnext : x.state (n + 1) = (x.state n).perform .shutdown := hm ▸ rfl
  rcases (x.sound n).winds hfree with hwound | hwinding
  · exact ⟨n + 1, Nat.lt_succ_self n, hnext ▸ hwound⟩
  · obtain ⟨m, hlt, hwound, -⟩ := hx.reaches leads_wound (hnext ▸ hwinding)
    exact ⟨m, (Nat.lt_succ_self n).trans hlt, hwound⟩

end TenureCourse

end Tidemark
