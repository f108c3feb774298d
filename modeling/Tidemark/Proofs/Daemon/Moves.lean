import Tidemark.Daemon.Call
import Tidemark.Proofs.Shard.Run
import Tidemark.Proofs.Shard.Steering

/-!
# Moves of a daemon

A daemon that was launched moves on by the steps of its tasks, by the calls of those who report
failures to it or shut it down, and by whatever happens elsewhere. What a move does to the handles,
the consumers and the projections is its `Effect`. A `Course` is any endless sequence of moves.
-/

namespace Tidemark

variable {L π : Type}

namespace Daemon

/-- The handles of a daemon, once it was launched. -/
def handles (d : Daemon L π) : Option Registry := d.supervisor.map (·.shards)

/-- The shard is registered, and its handle has a property. -/
def Reads (d : Daemon L π) (shard : String) (P : ShardHandle → Prop) : Prop :=
  ∃ r, d.handles = some r ∧ ∃ h, r.find? shard = some h ∧ P h

/-- What is read of a handle can be computed. -/
instance (d : Daemon L π) (shard : String) (P : ShardHandle → Prop) [DecidablePred P] :
    Decidable (d.Reads shard P) :=
  decidable_of_iff (∃ h ∈ d.handles.bind (·.find? shard), P h) <| by
    simp only [Reads, Option.mem_def, Option.bind_eq_some_iff]
    exact ⟨fun ⟨h, ⟨r, hr, hfind⟩, hP⟩ => ⟨r, hr, h, hfind, hP⟩,
      fun ⟨r, hr, h, hfind, hP⟩ => ⟨h, ⟨r, hr, hfind⟩, hP⟩⟩

/-- What is read of a handle goes along with what follows from it. -/
theorem Reads.imp {d : Daemon L π} {shard : String} {P Q : ShardHandle → Prop}
    (h : d.Reads shard P) (himp : ∀ h, P h → Q h) : d.Reads shard Q := by
  obtain ⟨r, hr, handle, hfind, hP⟩ := h
  exact ⟨r, hr, handle, hfind, himp handle hP⟩

/-- Two things that are read of a handle are read of the same one. -/
theorem Reads.and {d : Daemon L π} {shard : String} {P Q : ShardHandle → Prop}
    (h : d.Reads shard P) (h' : d.Reads shard Q) : d.Reads shard fun h => P h ∧ Q h := by
  obtain ⟨r, hr, handle, hfind, hP⟩ := h
  obtain ⟨r', hr', handle', hfind', hQ⟩ := h'
  obtain rfl := Option.some.inj (hr.symm.trans hr')
  obtain rfl := Option.some.inj (hfind.symm.trans hfind')
  exact ⟨r, hr, handle, hfind, hP, hQ⟩

/-- Where the handles are known, they are what is read. -/
theorem Reads.find {d : Daemon L π} {shard : String} {P : ShardHandle → Prop} {r : Registry}
    (h : d.Reads shard P) (hr : d.handles = some r) : ∃ h, r.find? shard = some h ∧ P h := by
  obtain ⟨r', hr', hread⟩ := h
  obtain rfl := Option.some.inj (hr.symm.trans hr')
  exact hread

/-- A consumer in the surroundings of a daemon reads its handles. -/
theorem reads_surroundings {d : Daemon L π} {s : Supervisor} (hs : d.supervisor = some s)
    {shard : String} {P : ShardHandle → Prop} :
    (d.surroundings s).Reads shard P ↔ d.Reads shard P := by
  have hr : d.handles = some s.shards := by rw [handles, hs]; rfl
  exact ⟨fun h => ⟨s.shards, hr, h⟩, fun h => h.find hr⟩

end Daemon

/-! ## Moves -/

/-- A call that follows the launch of the daemon. Those who report failures leave the commands to
the workers. -/
def DaemonCall.Follows : DaemonCall → Prop
  | .starting (.started (.ok _)) => False
  | .reporting r => r.Queues
  | _ => True

/-- A move of a daemon. -/
inductive DaemonMove where
  /-- A task takes a step. -/
  | task (now : Moment) (task : DaemonTask)
  /-- Someone begins to report a failure of a shard. -/
  | report (shard : ShardName) (e : Failure)
  /-- A call takes a step. -/
  | call (call : DaemonCall) (now : Moment)
  /-- Something happens that does not concern the shards. -/
  | elsewhere

/-- A move that follows the launch of the daemon. -/
def DaemonMove.Follows : DaemonMove → Prop
  | .call c _ => c.Follows
  | _ => True

/-- A daemon has the consumers and projections of another one. -/
structure SameConsumers (d d' : Daemon L π) : Prop where
  consumers : d'.consumers = d.consumers
  projections : d'.projections = d.projections

/-- A daemon has the handles, consumers and projections of another one. -/
structure SameShards (d d' : Daemon L π) : Prop extends SameConsumers d d' where
  handles : d'.handles = d.handles

/-- What is read of a handle is read where the handles are the same. -/
theorem SameShards.reads {d d' : Daemon L π} (h : SameShards d d') {shard : String}
    {P : ShardHandle → Prop} (hP : d.Reads shard P) : d'.Reads shard P := by
  obtain ⟨r, hr, hread⟩ := hP
  exact ⟨r, h.handles.trans hr, hread⟩

variable [EventLog L] [Projection π]

/-- The daemon after a move, as far as the move decides. -/
def Daemon.perform (d : Daemon L π) : DaemonMove → Daemon L π
  | .task now task => d.step now task
  | .report shard e => (d.report shard e).2
  | .call call now => (call.step d now).2
  | .elsewhere => d

/-- A daemon moves. -/
inductive Moved (d : Daemon L π) : DaemonMove → Daemon L π → Prop where
  | performs {m : DaemonMove} (h : m.Follows) : Moved d m (d.perform m)
  | elsewhere {d' : Daemon L π} (h : SameShards d d') : Moved d .elsewhere d'

/-! ## What moves do -/

/-- What a step of a consumer makes of the daemon. -/
structure ConsumerStepped (d : Daemon L π) (now : Moment) (k : ℕ) (s : Supervisor) (c : Consumer)
    (p : π) (d' : Daemon L π) : Prop where
  before : d.supervisor = some s
  consumer : d.consumers[k]? = some c
  projection : d.projections[k]? = some p
  supervisor : d'.supervisor = some (c.step p (d.surroundings s) now).2.2.supervisor
  consumers : d'.consumers = d.consumers.set k (c.step p (d.surroundings s) now).1
  projections : d'.projections = d.projections.set k (c.step p (d.surroundings s) now).2.1

/-- A move does nothing to the shards: there is no consumer to take a step, or no command to be
given. -/
def DaemonMove.Idle (d : Daemon L π) : DaemonMove → Prop
  | .task _ (.consumer k) =>
    d.supervisor = none ∨ d.consumers[k]? = none ∨ d.projections[k]? = none
  | .task now (.worker k) =>
    ∀ s item command due r, d.supervisor = some s →
      s.commands.worker? k = some (.calling item command due) → s.shards.apply now command ≠ .ok r
  | .report _ _ => d.supervisor = none
  | _ => True

/-- What a move of a daemon does to its shards: nothing, or it is the step of a consumer, or it
gives a command to every handle, or it resolves a failure. -/
inductive Effect (d d' : Daemon L π) : DaemonMove → Prop where
  | nothing {m : DaemonMove} (h : SameShards d d') (hm : m.Idle d) : Effect d d' m
  | consumer {now : Moment} {k : ℕ} {s : Supervisor} {c : Consumer} {p : π}
    (h : ConsumerStepped d now k s c p d') : Effect d d' (.task now (.consumer k))
  | command {now : Moment} {k : ℕ} {s : Supervisor} {item : Retry.Item Command} {command : Command}
    {due : Moment} {r : Registry} (h : SameConsumers d d') (hs : d.supervisor = some s)
    (hw : s.commands.worker? k = some (.calling item command due))
    (hr : s.shards.apply now command = .ok r) (hd : d'.handles = some r) :
    Effect d d' (.task now (.worker k))
  | report {shard : ShardName} {e : Failure} {s : Supervisor} (h : SameConsumers d d')
    (hs : d.supervisor = some s)
    (hd : d'.handles = some (s.report d.commons.metrics shard.identity e).2.1.shards) :
    Effect d d' (.report shard e)

/-- The effect of a step of a consumer, if there is one. -/
theorem Daemon.effect_consumer (d : Daemon L π) (now : Moment) (k : ℕ) :
    Effect d (d.step now (.consumer k)) (.task now (.consumer k)) := by
  have hnothing (h : d.supervisor = none ∨ d.consumers[k]? = none ∨ d.projections[k]? = none) :
      Effect d d (.task now (.consumer k)) := .nothing ⟨⟨rfl, rfl⟩, rfl⟩ h
  simp only [Daemon.step, stepConsumer]
  cases hs : d.supervisor with
  | none => exact hnothing (.inl hs)
  | some s =>
    cases hc : d.consumers[k]? with
    | none => exact hnothing (.inr (.inl hc))
    | some c =>
      cases hp : d.projections[k]? with
      | none => exact hnothing (.inr (.inr hp))
      | some p => exact .consumer ⟨hs, hc, hp, rfl, rfl, rfl⟩

/-- The effect of a step of a worker. -/
theorem Daemon.effect_worker (d : Daemon L π) (now : Moment) (k : ℕ) :
    Effect d (d.step now (.worker k)) (.task now (.worker k)) := by
  simp only [Daemon.step]
  cases hs : d.supervisor with
  | none => exact .nothing ⟨⟨rfl, rfl⟩, rfl⟩ fun s _ _ _ _ hsome => by rw [hs] at hsome; cases hsome
  | some s =>
    have hshards := s.shards_stepWorker d.commons.metrics k now
    -- Either the worker has come to the end of its call and gives the command, or it does nothing.
    by_cases hgiven : ∃ item command due r,
        s.commands.worker? k = some (.calling item command due) ∧ s.shards.apply now command = .ok r
    · obtain ⟨item, command, due, r, hw, hr⟩ := hgiven
      refine .command ⟨rfl, rfl⟩ hs hw hr ?_
      simp only [handles, Option.map_some, hshards, hw, Supervisor.obeyed_of_apply hr]
    · refine .nothing ⟨⟨rfl, rfl⟩, ?_⟩ fun s' item command due r hs' hw hr => hgiven ?_
      · simp only [handles, hs, Option.map_some, Option.some.injEq]
        rw [hshards]
        split
        · next item command due hw =>
          exact (Supervisor.obeyed_cases command now s.shards).resolve_right fun hr =>
            hgiven ⟨item, command, due, _, hw, hr⟩
        · rfl
      · obtain rfl := Option.some.inj (hs.symm.trans hs')
        exact ⟨item, command, due, r, hw, hr⟩

omit [EventLog L] [Projection π] in
/-- Waiting for consumers to end changes no shard. -/
theorem sameShards_join (d : Daemon L π) (now : Moment) (k : ℕ) :
    SameShards d (d.join now k).2 := by
  unfold Daemon.join
  split_ifs
  · exact ⟨⟨rfl, rfl⟩, rfl⟩
  · refine ⟨⟨rfl, rfl⟩, ?_⟩
    simp only [Daemon.handles, Daemon.stopCommands, Option.map_map]
    rfl

/-- A step of a call that follows the launch changes no shard. -/
theorem DaemonCall.Follows.sameShards {call : DaemonCall} (h : call.Follows) (d : Daemon L π)
    (now : Moment) : SameShards d (call.step d now).2 := by
  cases call with
  | starting a =>
    cases a with
    | started outcome =>
      rcases outcome with (e | cause) | found
      · exact ⟨⟨rfl, rfl⟩, rfl⟩
      · exact ⟨⟨rfl, rfl⟩, rfl⟩
      · exact h.elim
    | _ => exact ⟨⟨rfl, rfl⟩, rfl⟩
  | stopping a =>
    cases a with
    | stopped =>
      obtain ⟨⟨hconsumers, hprojections⟩, hhandles⟩ :=
        sameShards_join { d with shutdown := true } now 0
      exact ⟨⟨hconsumers, hprojections⟩, hhandles⟩
    | _ => exact ⟨⟨rfl, rfl⟩, rfl⟩
  | joining k due => exact sameShards_join d now (k + 1)
  | reporting r =>
    cases r with
    | done outcome => exact ⟨⟨rfl, rfl⟩, rfl⟩
    | posting k p =>
      simp only [step]
      cases hs : d.supervisor with
      | none => exact ⟨⟨rfl, rfl⟩, rfl⟩
      | some s =>
        refine ⟨⟨rfl, rfl⟩, ?_⟩
        have hshards := Reporting.Queues.shards_step h s d.commons.metrics now
        simp only [Daemon.handles, hs, Option.map_some, hshards]
  | _ => exact ⟨⟨rfl, rfl⟩, rfl⟩

/-- Every move has an effect. -/
theorem Moved.effect {d d' : Daemon L π} {m : DaemonMove} (h : Moved d m d') : Effect d d' m := by
  cases h with
  | elsewhere h => exact .nothing h trivial
  | performs h =>
    cases m with
    | task now task =>
      cases task with
      | agent task => exact .nothing ⟨⟨rfl, rfl⟩, rfl⟩ trivial
      | consumer k => exact d.effect_consumer now k
      | dispatcher =>
        refine .nothing ⟨⟨rfl, rfl⟩, ?_⟩ trivial
        simp only [Daemon.handles, Daemon.perform, Daemon.step, Option.map_map]
        rfl
      | worker k => exact d.effect_worker now k
    | report shard e =>
      simp only [Daemon.perform, Daemon.report]
      cases hs : d.supervisor with
      | none => exact .nothing ⟨⟨rfl, rfl⟩, rfl⟩ hs
      | some s => exact .report ⟨rfl, rfl⟩ hs rfl
    | call call now => exact .nothing (h.sameShards d now) trivial
    | elsewhere => exact .nothing ⟨⟨rfl, rfl⟩, rfl⟩ trivial

/-! ## Courses -/

/-- What holds of a daemon from its launch on. -/
structure Daemon.Launched (d : Daemon L π) : Prop where
  tidy : ∀ (k : ℕ) (c : Consumer), d.consumers[k]? = some c → c.Tidy
  wired : d.consumers.length = d.projections.length

omit [EventLog L] in
/-- A daemon that was launched. -/
theorem Daemon.launched_of_launch {d d' : Daemon L π} {found found' : Statistics}
    (h : d.launch found = (.ok found', d')) : d'.Launched := by
  simp only [launch] at h
  split at h
  · cases h
  · obtain ⟨-, rfl⟩ := Prod.mk.inj h
    refine ⟨fun k c hc => ?_, by simp [enter]⟩
    simp only [enter, List.getElem?_map, Option.map_map, Option.map_eq_some_iff] at hc
    obtain ⟨p, -, rfl⟩ := hc
    trivial

omit [EventLog L] [Projection π] in
/-- A consumer of a launched daemon takes its steps. -/
theorem Daemon.Launched.not_idle {d : Daemon L π} (hl : d.Launched) {r : Registry}
    (hr : d.handles = some r) {k : ℕ} {c : Consumer} (hc : d.consumers[k]? = some c)
    (now : Moment) : ¬ (DaemonMove.task now (.consumer k)).Idle d := by
  rintro (hnone | hnone | hnone)
  · simp [handles, hnone] at hr
  · simp [hnone] at hc
  · have hlt : k < d.consumers.length := (List.getElem?_eq_some_iff.mp hc).1
    have hge : d.projections.length ≤ k := List.getElem?_eq_none_iff.mp hnone
    exact absurd hlt (by rw [hl.wired]; omega)

/-- A launched daemon stays launched. -/
theorem Effect.launched {d d' : Daemon L π} {m : DaemonMove} (h : Effect d d' m)
    (hl : d.Launched) : d'.Launched := by
  have hsame (h : SameConsumers d d') : d'.Launched := by
    obtain ⟨hconsumers, hprojections⟩ := h
    exact ⟨hconsumers ▸ hl.tidy, by rw [hconsumers, hl.wired, hprojections]⟩
  cases h with
  | nothing h => exact hsame h.toSameConsumers
  | command h => exact hsame h
  | report h => exact hsame h
  | @consumer now k s c p h =>
    refine ⟨fun j c' hc' => ?_, ?_⟩
    · rw [h.consumers, List.getElem?_set] at hc'
      split_ifs at hc' with hj hlength
      · cases hc'
        exact (c.step_steers _ p (hl.tidy k c h.consumer) now).tidy
      · exact hl.tidy j c' hc'
    · rw [h.consumers, h.projections, List.length_set, List.length_set, hl.wired]

/-- A course of a daemon from its launch on. -/
structure Course (L π : Type) [EventLog L] [Projection π] where
  state : ℕ → Daemon L π
  move : ℕ → DaemonMove
  launch : ∃ d found, Daemon.launch d found = (.ok found, state 0)
  moved : ∀ n, Moved (state n) (move n) (state (n + 1))

namespace Course

/-- The effect of a move on a course. -/
theorem effect (x : Course L π) (n : ℕ) : Effect (x.state n) (x.state (n + 1)) (x.move n) :=
  (x.moved n).effect

/-- The daemon is launched along its course. -/
theorem launched (x : Course L π) (n : ℕ) : (x.state n).Launched := by
  induction n with
  | zero =>
    obtain ⟨d, found, hlaunch⟩ := x.launch
    exact Daemon.launched_of_launch hlaunch
  | succ n ih => exact (x.effect n).launched ih

/-- The course on which some moves are made and nothing happens afterwards. -/
def ofMoves (d : Daemon L π) (found : Statistics) (h : (d.launch found).1 = .ok found)
    (moves : List DaemonMove) (hm : ∀ m ∈ moves, m.Follows) : Course L π where
  state n := (moves.take n).foldl Daemon.perform (d.launch found).2
  move n := moves.getD n .elsewhere
  launch := ⟨d, found, Prod.ext h rfl⟩
  moved n := by
    rcases lt_or_ge n moves.length with hlt | hge
    · have hmove : moves.getD n .elsewhere = moves[n] := by simp [hlt]
      rw [hmove, List.take_succ_eq_append_getElem hlt, List.foldl_append]
      exact .performs (hm _ (List.getElem_mem hlt))
    · have hmove : moves.getD n .elsewhere = .elsewhere := by simp [hge]
      rw [hmove, List.take_of_length_le hge,
        List.take_of_length_le (hge.trans n.le_succ)]
      exact .elsewhere ⟨⟨rfl, rfl⟩, rfl⟩

/-- Once its moves are made, nothing happens on a course any more. -/
theorem ofMoves_rests {d : Daemon L π} {found : Statistics} (h : (d.launch found).1 = .ok found)
    {moves : List DaemonMove} (hm : ∀ m ∈ moves, m.Follows) {n : ℕ} (hn : moves.length ≤ n) :
    (ofMoves d found h moves hm).move n = .elsewhere ∧
      (ofMoves d found h moves hm).state n = (ofMoves d found h moves hm).state moves.length := by
  refine ⟨by simp [ofMoves, hn], ?_⟩
  simp only [ofMoves, List.take_of_length_le hn, List.take_length]

end Course

/-! ## Rehearsals -/

/-- A daemon with the shard of a rehearsal, before its launch. -/
def Daemon.rehearsal (plan : List Rehearsal.Planned) (policy : Policy) :
    Daemon MemoryLog Rehearsal.ScriptedProjection :=
  let task := ShardTask.rehearsal plan policy
  { config := { settings := { retry := { backoff := [] } } }
    commons := task.surroundings.commons
    agent := .new {}
    policy := policy
    projections := [task.projection] }

end Tidemark
