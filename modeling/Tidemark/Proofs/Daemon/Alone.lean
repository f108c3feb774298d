import Mathlib.Logic.Relation
import Tidemark.Proofs.Daemon.Streaks
import Tidemark.Proofs.Shard.Apart

/-!
# Shards do not influence each other

The shards of a daemon share one policy, one registry and one queue of commands, and their failures,
completed batches and commands may come in any order. Of all this, what concerns one shard is what
is noted of its own failures and completed batches (`Course.own`). The answers to its failures and
its count are those of a supervisor that sees nothing else (`Supervisor.alone`), and so the same on
any two courses with the same policy on which the shard has the same failures and completed batches
(`Course.answers_alone`).

What a failure was answered with is not changed while its command is on its way into the queue, and
the failure of a shard that is not registered is refused and leaves the daemon as it was.
-/

namespace Tidemark

variable {L π L' π' : Type}

/-! ## A supervisor with one shard at work -/

/-- What is noted of a step, if it is anything. -/
def Noted.toList : Noted → List Noted
  | nothing => []
  | e => [e]

namespace Supervisor

/-- What a supervisor does about what is noted of a shard, with the answers to its failures. -/
def take (shard : String) : List Continuation × Supervisor → Noted → List Continuation × Supervisor
  | x, .nothing => x
  | (answers, s), .failed e =>
    let (r, s, _) := s.report {} shard e
    (answers ++ r.continuation?.toList, s)
  | (answers, s), .completed => (answers, s.modify shard (·.resetAttempts))

/-- The answers of a supervisor that sees only what is noted of one shard. -/
def alone (s : Supervisor) (shard : String) (own : List Noted) : List Continuation × Supervisor :=
  own.foldl (take shard) ([], s)

variable {s : Supervisor} {shard : String} {x : List Continuation × Supervisor}

/-- What is noted next is taken up last. -/
theorem alone_append (own : List Noted) (e : Noted) :
    s.alone shard (own ++ e.toList) = take shard (s.alone shard own) e := by
  cases e <;> simp [alone, Noted.toList, take]

/-- What is noted of a shard leaves the policy. -/
@[simp]
theorem policy_take (e : Noted) : (take shard x e).2.policy = x.2.policy := by
  cases e with
  | failed e => exact x.2.policy_report {} shard e
  | _ => rfl

/-- What is noted of a shard counts. -/
theorem counted_take (e : Noted) :
    (take shard x e).2.shards.counted shard = e.count x.2.policy (x.2.shards.counted shard) := by
  cases e with
  | nothing => rfl
  | failed e =>
    refine (congrFun (x.2.counted_report {} shard e) shard).trans ?_
    rw [Function.update_self]
    rfl
  | completed =>
    refine (congrFun (x.2.shards.counted_modify_eq_update shard _) shard).trans ?_
    rw [Function.update_self, Noted.count, Registry.counted, Option.map_map]
    rfl

end Supervisor

/-- The answer to a failure that is noted, by the policy and the count. -/
def Noted.answer? (policy : Policy) (counted : Option ℕ) : Noted → Option Continuation
  | failed e => counted.map fun n => policy.determine e (ShardHandle.attemptAfter n)
  | _ => none

/-- A failure that is noted is answered. -/
theorem Supervisor.answers_take {shard : String} {x : List Continuation × Supervisor} (e : Noted) :
    (take shard x e).1 =
      x.1 ++ (e.answer? x.2.policy (x.2.shards.counted shard)).toList := by
  cases e with
  | failed e => exact congrArg (fun c => x.1 ++ c.toList) (x.2.continuation?_report {} shard e)
  | _ => exact (List.append_nil _).symm

/-! ## Reports that are carried on -/

/-- Someone who reports a failure takes a step. -/
def Reporting.CarriedOn (r r' : Reporting) : Prop := ∃ s m now, r' = (r.step s m now).1

/-- Carrying a report on does not change the answer. -/
theorem Reporting.continuation?_step (r : Reporting) (s : Supervisor) (m : Metrics)
    (now : Moment) : (r.step s m now).1.continuation? = r.continuation? := by
  unfold step
  split <;> rfl

/-- However far a report is carried on, the answer stays the same. -/
theorem Reporting.continuation?_of_carriedOn {r r' : Reporting}
    (h : Relation.ReflTransGen CarriedOn r r') : r'.continuation? = r.continuation? := by
  induction h with
  | refl => rfl
  | tail _ hstep ih =>
    obtain ⟨s, m, now, rfl⟩ := hstep
    exact (continuation?_step _ s m now).trans ih

/-! ## Failures of shards that are not registered -/

/-- The failure of a shard that is not registered is refused, and changes nothing. -/
theorem Supervisor.report_of_counted_eq_none {s : Supervisor} {shard : String}
    (h : s.shards.counted shard = none) (m : Metrics) (e : Failure) :
    s.report m shard e = (.done (.error (.shardNotFound shard)), s, m) := by
  have hnone : s.shards.find? shard = none := Option.map_eq_none_iff.mp h
  simp only [report, resolve?, hnone]
  rfl

variable [EventLog L] [Projection π] [EventLog L'] [Projection π']

omit [EventLog L] [Projection π] in
/-- The failure of a shard that is not registered is refused, and changes nothing of the daemon. -/
theorem Daemon.report_of_counted_eq_none {d : Daemon L π} {s : Supervisor}
    (hs : d.supervisor = some s) {shard : ShardName} (h : d.counted shard.identity = none)
    (e : Failure) :
    d.report shard e = (.reporting (.done (.error (.shardNotFound shard.identity))), d) := by
  rw [counted_eq hs] at h
  obtain ⟨config, state, ⟨log, tracker, metrics, origin⟩, agent, policy, projections, supervisor,
    consumers, shutdown⟩ := d
  obtain rfl : supervisor = some s := hs
  simp only [report, Supervisor.report_of_counted_eq_none h]

/-! ## The policy on a course -/

omit [EventLog L] [Projection π] in
/-- Waiting for consumers to end leaves the policy. -/
theorem Daemon.currentPolicy_join (d : Daemon L π) (now : Moment) (k : ℕ) :
    (d.join now k).2.currentPolicy = d.currentPolicy := by
  unfold join
  split_ifs
  · rfl
  · cases hs : d.supervisor <;> simp [stopCommands, currentPolicy, hs, Supervisor.stop]

/-- A task leaves the policy. -/
theorem Daemon.currentPolicy_step (d : Daemon L π) (now : Moment) (task : DaemonTask) :
    (d.step now task).currentPolicy = d.currentPolicy := by
  cases hs : d.supervisor with
  | none => cases task <;> simp [step, stepConsumer, currentPolicy, hs]
  | some s =>
    rw [currentPolicy_eq hs]
    cases task with
    | agent task => simp [step, currentPolicy, hs]
    | dispatcher => simp [step, currentPolicy, hs, Supervisor.stepDispatcher]
    | worker k => simp [step, currentPolicy, hs]
    | consumer k =>
      simp only [step, stepConsumer, hs]
      split
      · next s' c p hs' _ _ =>
        obtain rfl := Option.some.inj hs'
        exact c.policy_step _ p now
      · exact currentPolicy_eq hs

/-- A call that follows the launch leaves the policy. -/
theorem DaemonCall.Follows.currentPolicy_step {call : DaemonCall} (h : call.Follows)
    (d : Daemon L π) (now : Moment) : (call.step d now).2.currentPolicy = d.currentPolicy := by
  cases call with
  | starting a =>
    cases a with
    | started outcome =>
      rcases outcome with (e | cause) | found
      · rfl
      · rfl
      · exact h.elim
    | _ => rfl
  | stopping a =>
    cases a with
    | stopped => exact Daemon.currentPolicy_join { d with shutdown := true } now 0
    | _ => rfl
  | joining k due => exact d.currentPolicy_join now (k + 1)
  | reporting r =>
    cases r with
    | done outcome => rfl
    | posting k p =>
      simp only [step]
      split
      · rfl
      · next s hs =>
        rw [Daemon.currentPolicy_eq hs]
        exact Reporting.policy_step _ s _ now
  | _ => rfl

/-- A move of the daemon itself leaves the policy. -/
theorem Daemon.currentPolicy_perform (d : Daemon L π) {m : DaemonMove} (h : m.Follows) :
    (d.perform m).currentPolicy = d.currentPolicy := by
  cases m with
  | task now task => exact d.currentPolicy_step now task
  | report shard e =>
    show (d.report shard e).2.currentPolicy = d.currentPolicy
    unfold report
    split
    · rfl
    · next s hs =>
      rw [currentPolicy_eq hs]
      exact s.policy_report _ _ e
  | call call now => exact h.currentPolicy_step d now
  | elsewhere => rfl

/-- A move leaves the policy if what happens elsewhere does. -/
theorem Moved.currentPolicy {d d' : Daemon L π} {m : DaemonMove} (h : Moved d m d')
    (helsewhere : m = .elsewhere → d'.currentPolicy = d.currentPolicy) :
    d'.currentPolicy = d.currentPolicy := by
  cases h with
  | performs h => exact d.currentPolicy_perform h
  | elsewhere h => exact helsewhere rfl

namespace Course

variable {x : Course L π} {shard : String} {m n : ℕ}

/-- What happens elsewhere leaves the policy. -/
def Governed (x : Course L π) : Prop :=
  ∀ n, x.move n = .elsewhere → (x.state (n + 1)).currentPolicy = (x.state n).currentPolicy

/-- The policy of a course is that of the launch. -/
theorem Governed.currentPolicy (h : x.Governed) (n : ℕ) :
    (x.state n).currentPolicy = (x.state 0).currentPolicy := by
  induction n with
  | zero => rfl
  | succ n ih => exact ((x.moved n).currentPolicy (h n)).trans ih

/-! ## The course of one shard -/

/-- What is noted of a shard in so many moves, in order. -/
def own (x : Course L π) (shard : String) : ℕ → List Noted
  | 0 => []
  | n + 1 => own x shard n ++ (x.noted shard n).toList

/-- The answers to the failures of a shard in so many moves, in order. -/
def answers (x : Course L π) (shard : String) : ℕ → List Continuation
  | 0 => []
  | n + 1 => answers x shard n ++ (x.resolution? shard n).toList

/-- A shard gets an answer in a move exactly if a failure is noted of it, by the policy and its
count. -/
theorem resolution?_eq_answer? : x.resolution? shard n =
    (x.noted shard n).answer? (x.state n).currentPolicy ((x.state n).counted shard) := by
  cases hnoted : x.noted shard n with
  | failed e => exact resolution?_eq hnoted
  | nothing | completed =>
    rw [resolution?, DaemonMove.resolution?,
      show (x.move n).noted (x.state n) shard = _ from hnoted]
    rfl

/-- On a course, a shard gets the answers, and has the count, that a supervisor gives it which sees
nothing but the failures and the completed batches of that shard. -/
theorem alone_own (hgoverned : x.Governed) {s : Supervisor}
    (hpolicy : s.policy = (x.state 0).currentPolicy)
    (hcounted : s.shards.counted shard = (x.state 0).counted shard) (n : ℕ) :
    (s.alone shard (x.own shard n)).1 = x.answers shard n ∧
      (s.alone shard (x.own shard n)).2.policy = (x.state n).currentPolicy ∧
        (s.alone shard (x.own shard n)).2.shards.counted shard = (x.state n).counted shard := by
  induction n with
  | zero => exact ⟨rfl, hpolicy, hcounted⟩
  | succ n ih =>
    obtain ⟨hanswers, hrules, hcount⟩ := ih
    -- The next answer depends on the policy and on the count of this shard, and both are the same.
    rw [own, Supervisor.alone_append]
    refine ⟨?_, ?_, ?_⟩
    · rw [Supervisor.answers_take, hanswers, hrules, hcount, ← resolution?_eq_answer?, answers]
    · rw [Supervisor.policy_take, hrules, hgoverned.currentPolicy,
        ← hgoverned.currentPolicy (n + 1)]
    · rw [Supervisor.counted_take, hrules, hcount, counted_succ]

/-! ## Shards that are registered -/

/-- A course begins with a supervisor that has counted nothing yet. -/
theorem exists_supervisor (x : Course L π) : ∃ s, (x.state 0).supervisor = some s ∧
    s.shards = .ofNames (x.state 0).names := by
  obtain ⟨d, found, hlaunch⟩ := x.launch
  have hbooting := Daemon.launch_booting d found
  rw [hlaunch] at hbooting
  obtain ⟨hnames, hequipped⟩ := hbooting
  rw [show (x.state 0).names = d.names from hnames]
  exact hequipped.registry

/-- The daemon of a course has a supervisor. -/
theorem supervisor_isSome (x : Course L π) (n : ℕ) : (x.state n).supervisor.isSome := by
  rw [← Option.isSome_map, ← Daemon.handles]
  induction n with
  | zero =>
    obtain ⟨s, hs, -⟩ := x.exists_supervisor
    rw [Daemon.handles, hs]
    rfl
  | succ n ih =>
    have heffect := x.effect n
    generalize x.move n = m at heffect
    cases heffect with
    | nothing h => rwa [h.handles]
    | consumer h => rw [Daemon.handles, h.supervisor]; rfl
    | command h hs hw hr hd => rw [hd]; rfl
    | report h hs hd => rw [hd]; rfl

/-- Whether a shard is registered does not change. -/
theorem isSome_counted (n : ℕ) :
    ((x.state n).counted shard).isSome = ((x.state 0).counted shard).isSome := by
  induction n with
  | zero => rfl
  | succ n ih =>
    rw [counted_succ, ← ih]
    cases x.noted shard n <;> simp [Noted.count]

/-- A shard is registered if its identity is among those of the launch. -/
theorem counted_eq_none (hunknown : ∀ name ∈ (x.state 0).names, name.identity ≠ shard) (n : ℕ) :
    (x.state n).counted shard = none := by
  obtain ⟨s, hs, hshards⟩ := x.exists_supervisor
  have hnone : (x.state 0).counted shard = none := by
    rw [Daemon.counted_eq hs, hshards, Registry.counted, Registry.find?_ofNames]
    simpa using hunknown
  have hsome : ((x.state n).counted shard).isSome = ((x.state 0).counted shard).isSome :=
    isSome_counted n
  simpa [hnone] using hsome

/-- No failure of a shard is counted when a course begins. -/
theorem counted_zero (x : Course L π) {counted : ℕ} (h : (x.state 0).counted shard = some counted) :
    counted = 0 := by
  obtain ⟨d, found, hlaunch⟩ := x.launch
  exact Daemon.counted_of_launch hlaunch h

/-- The answers to the failures of a shard, and its count, on any course. They are those that a
supervisor gives with the same policy which sees nothing but the failures and the completed batches
of that shard, and so the same on every other course with the same policy on which the shard has
the same failures and completed batches. The answer to a failure is not changed while the report is
carried on. The failure of a shard that is not registered is refused at any time, and leaves the
daemon with all its counts, instructions and commands as it was. -/
theorem answers_alone {x : Course L π} (hgoverned : x.Governed) (shard : String) (n : ℕ) :
    (∀ s : Supervisor, s.policy = (x.state 0).currentPolicy →
      s.shards.counted shard = (x.state 0).counted shard →
        (s.alone shard (x.own shard n)).1 = x.answers shard n ∧
          (s.alone shard (x.own shard n)).2.shards.counted shard = (x.state n).counted shard) ∧
    (∀ {L' π' : Type} [EventLog L'] [Projection π'] (y : Course L' π') (m : ℕ), y.Governed →
      (y.state 0).currentPolicy = (x.state 0).currentPolicy →
        ((y.state 0).counted shard).isSome = ((x.state 0).counted shard).isSome →
          y.own shard m = x.own shard n →
            y.answers shard m = x.answers shard n ∧
              (y.state m).counted shard = (x.state n).counted shard) ∧
    (∀ r r', Relation.ReflTransGen Reporting.CarriedOn r r' →
      r'.continuation? = r.continuation?) ∧
    (∀ name e, (∀ other ∈ (x.state 0).names, other.identity ≠ name.identity) →
      (x.state n).report name e =
        (.reporting (.done (.error (.shardNotFound name.identity))), x.state n)) := by
  refine ⟨fun s hpolicy hcounted => ?_, fun {L' π'} _ _ y m hy hpolicy hsome hown => ?_,
    fun r r' => Reporting.continuation?_of_carriedOn, fun name e hunknown => ?_⟩
  · obtain ⟨hanswers, -, hcount⟩ := alone_own hgoverned hpolicy hcounted n
    exact ⟨hanswers, hcount⟩
  · -- Both courses are compared with the supervisor of the first.
    obtain ⟨s, hs, -⟩ := x.exists_supervisor
    have hcounted : (y.state 0).counted shard = (x.state 0).counted shard := by
      cases hx : (x.state 0).counted shard with
      | none => simpa [hx] using hsome
      | some c =>
        obtain ⟨c', hy⟩ := Option.isSome_iff_exists.mp (hsome.trans (by rw [hx]; rfl))
        rw [hy, x.counted_zero hx, y.counted_zero hy]
    have hrules := (Daemon.currentPolicy_eq hs).symm
    have hcount := (Daemon.counted_eq hs shard).symm
    obtain ⟨hanswers, -, hafter⟩ := alone_own hgoverned hrules hcount n
    obtain ⟨hanswers', -, hafter'⟩ :=
      alone_own hy (hrules.trans hpolicy.symm) (hcount.trans hcounted.symm) m
    rw [hown] at hanswers' hafter'
    exact ⟨hanswers'.symm.trans hanswers, hafter'.symm.trans hafter⟩
  · obtain ⟨s, hs⟩ := Option.isSome_iff_exists.mp (x.supervisor_isSome n)
    exact Daemon.report_of_counted_eq_none hs (counted_eq_none hunknown n) e

/-! ## Rehearsals -/

/-- On a course that is given by its moves, nothing happens elsewhere. -/
theorem governed_ofMoves {d : Daemon L π} {found : Statistics} (h : (d.launch found).1 = .ok found)
    {moves : List DaemonMove} (hm : ∀ m ∈ moves, m.Follows) :
    (ofMoves d found h moves hm).Governed := by
  intro n hmove
  rcases lt_or_ge n moves.length with hlt | hge
  · simp only [ofMoves] at hmove ⊢
    have hlast : moves[n] = .elsewhere := by simpa [hlt] using hmove
    rw [List.take_succ_eq_append_getElem hlt, List.foldl_append, hlast]
    rfl
  · rw [(ofMoves_rests h hm (hge.trans n.le_succ)).2, (ofMoves_rests h hm hge).2]

/-- A daemon that retries once what takes too long, and stops all shards if events cannot be loaded,
on a course of some moves. -/
def sharing (shards : List ShardName) (moves : List DaemonMove)
    (hm : ∀ m ∈ moves, m.Follows) : Course MemoryLog Rehearsal.ScriptedProjection :=
  ofMoves { retrying shards with
      policy := retryingOnce.add (.ofCategory .eventFetch) [.stopAllShards] }
    (.empty ⟨0, false⟩) (by rfl) moves hm

/-- Between two failures of one shard, a failure of another one stops all shards, and the first one
is told so. It gets the same answers as on a course without the other shard, and a shard that is not
registered gets none. -/
theorem answers_alone_of_two :
    let x := sharing [.whole "T", .whole "U"]
      ([.report (.whole "T") late, .report (.whole "U") (.plain .eventFetch "gone"),
        .call (.reporting (.posting .stopAllShards (.sending ⟨.stopAll, 0⟩))) 0,
        .task 0 .dispatcher, .task 0 .dispatcher, .task 0 (.worker 0), .task 0 (.worker 0),
        .report (.whole "U") late, .report (.whole "T") late])
      (by simp [DaemonMove.Follows, DaemonCall.Follows, Reporting.Queues])
    let y := sharing [.whole "T"] [.report (.whole "T") late, .report (.whole "T") late]
      (by simp [DaemonMove.Follows])
    ((x.state 7).Reads "T:All" fun h => h.control.value = .stop ∧ h.attempts = 1) ∧
      x.answers "T:All" 9 = [.retryLater (.ofMillis 1), .stopShard] ∧
        y.answers "T:All" 2 = x.answers "T:All" 9 ∧
          (y.state 2).counted "T:All" = (x.state 9).counted "T:All" ∧
            (x.state 9).report (.whole "V") late =
              (.reporting (.done (.error (.shardNotFound "V:All"))), x.state 9) := by
  intro x y
  obtain ⟨-, hcourses, -, hunknown⟩ :=
    answers_alone (governed_ofMoves _ _ : x.Governed) "T:All" 9
  obtain ⟨hanswers, hcounted⟩ :=
    hcourses y 2 (governed_ofMoves _ _) (by rfl) (by rfl) (by rfl)
  refine ⟨by decide +kernel, by rfl, hanswers, hcounted, hunknown (.whole "V") late ?_⟩
  decide +kernel

end Course

end Tidemark
