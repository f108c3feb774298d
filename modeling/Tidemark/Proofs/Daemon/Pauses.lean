import Mathlib.Order.Monotone.Basic
import Mathlib.Tactic.IntervalCases
import Tidemark.Proofs.Daemon.Moves
import Tidemark.Proofs.Daemon.Registration
import Tidemark.Proofs.Shard.Pausing

/-!
# The newest pause is honoured

A consumer that sits out a pause waits for several things at once: for the end of the pause, for
another instruction, for the end of the daemon. When more than one of them has come, it may go on
with any, but its step goes on with the end of the daemon first, and with another instruction before
the end of the pause. In a `Race` this is left open: besides the moves of a daemon there is that a
consumer takes back the pause that it has sat out, whatever else has come up (`RaceMove.clears`),
and that it then goes into its next round (`RaceMove.comesRound`). If nothing else has come up, the
step is one after the other (`Daemon.stepConsumer_of_elapsed`). Other moves may come between the
two. Time passes, and does not go back.

However the moves are interleaved, no instruction is lost: that of a shard is the newest one that
was issued to it, and only a pause may have been taken back, at its end or later
(`Race.newest_honoured`).
-/

namespace Tidemark

variable {L π : Type}

namespace Daemon

/-- The instruction of a shard, if it is registered. -/
def instruction? (d : Daemon L π) (shard : String) : Option Control :=
  d.handles.bind (·.instruction? shard)

/-- The instruction of a shard, once the daemon was launched. -/
theorem instruction?_eq {d : Daemon L π} {s : Supervisor} (hs : d.supervisor = some s)
    (shard : String) : d.instruction? shard = s.shards.instruction? shard := by
  rw [instruction?, handles, hs]
  rfl

/-- Every consumer that sits out a pause has read this pause. -/
def Punctual (d : Daemon L π) : Prop :=
  ∀ (k : ℕ) (c : Consumer), d.consumers[k]? = some c → c.Punctual

end Daemon

/-! ## What is issued -/

/-- The instruction that a worker gives the shard of a handle in its next step. A shard that has
stopped is not paused. -/
def Supervisor.issues? (s : Supervisor) (k : ℕ) (now : Moment) (h : ShardHandle) :
    Option Control :=
  match s.commands.worker? k with
  | some (.calling _ (.pauseAll delay) _) =>
    if h.status = .stopped then none else (now.after delay).toOption.map .pause
  | some (.calling _ .stopAll _) => some .stop
  | _ => none

/-- The instruction that is issued to a shard in a move: its own consumer acts on a failure, or a
worker carries a command to all shards. -/
def DaemonMove.issues? (d : Daemon L π) (shard : String) : DaemonMove → Option Control
  | .task now (.consumer k) =>
    (d.instruction? shard).bind fun _ => (d.consumers[k]?).bind fun c =>
      if c.identity = shard then c.issues? now else none
  | .task now (.worker k) =>
    d.supervisor.bind fun s => (s.shards.find? shard).bind (s.issues? k now)
  | _ => none

namespace Supervisor

variable {s : Supervisor} {k : ℕ} {now : Moment}

/-- What the command of a worker does to the instruction of a shard. -/
theorem instructs_apply {item : Retry.Item Command} {command : Command} {due : Moment}
    {r : Registry} {SatOut : Moment → Prop}
    (hw : s.commands.worker? k = some (.calling item command due))
    (happly : s.shards.apply now command = .ok r) (shard : String) :
    Instructs now SatOut (s.shards.instruction? shard)
      ((s.shards.find? shard).bind (s.issues? k now)) (r.instruction? shard) := by
  rw [Registry.instruction?, Registry.instruction?]
  rcases Registry.find?_apply happly shard with ⟨hnone, hnone'⟩ | ⟨old, new, hold, hnew, hobey⟩
  · rw [hnone, hnone']
    exact .keeps none
  · rw [hold, hnew, Option.bind_some, Option.map_some, Option.map_some, issues?, hw]
    cases command with
    | stopAll =>
      obtain rfl := Except.ok.inj hobey
      exact .obeys _ (by simp)
    | pauseAll delay =>
      simp only [Registry.obey] at hobey
      dsimp only
      split_ifs at hobey ⊢
      · obtain rfl := Except.ok.inj hobey
        exact .keeps _
      · obtain ⟨end_, hend, hpaused⟩ := bind_eq_ok.mp hobey
        obtain rfl := Except.ok.inj hpaused
        rw [hend]
        exact .obeys _ (by simp)

/-- A worker issues an instruction only if it carries a command to all shards. -/
theorem exists_apply_of_issues? {h : ShardHandle} {v : Control} (hv : s.issues? k now h = some v) :
    ∃ item command due r, s.commands.worker? k = some (.calling item command due) ∧
      s.shards.apply now command = .ok r := by
  unfold issues? at hv
  split at hv
  · next item delay due hw =>
    split_ifs at hv
    cases hafter : now.after delay with
    | error cause =>
      rw [hafter] at hv
      cases hv
    | ok end_ =>
      obtain ⟨r, hr⟩ := s.shards.exists_apply now (.pauseAll delay) fun _ hd =>
        ⟨end_, Command.pauseAll.inj hd ▸ hafter⟩
      exact ⟨item, _, due, r, hw, hr⟩
  · next item due hw =>
    obtain ⟨r, hr⟩ := s.shards.exists_apply now .stopAll nofun
    exact ⟨item, _, due, r, hw, hr⟩
  · cases hv

end Supervisor

namespace DaemonMove

variable {d : Daemon L π} {s : Supervisor} {k : ℕ}

/-- What the step of a consumer issues. -/
theorem issues?_consumer {c : Consumer} (hs : d.supervisor = some s)
    (hc : d.consumers[k]? = some c) (shard : String) (now : Moment) :
    issues? d shard (.task now (.consumer k)) =
      (s.shards.instruction? shard).bind fun _ =>
        if c.identity = shard then c.issues? now else none := by
  rw [issues?, hc, Daemon.instruction?_eq hs]
  rfl

/-- What the step of a worker issues. -/
theorem issues?_worker (hs : d.supervisor = some s) (shard : String) (now : Moment) (k : ℕ) :
    issues? d shard (.task now (.worker k)) = (s.shards.find? shard).bind (s.issues? k now) := by
  rw [issues?, hs, Option.bind_some]

/-- A move that does nothing to the shards issues nothing. -/
theorem issues?_of_idle (hl : d.Launched) {m : DaemonMove} (h : m.Idle d) (shard : String) :
    m.issues? d shard = none := by
  cases m with
  | task now task =>
    cases task with
    | consumer k =>
      simp only [issues?, Option.bind_eq_none_iff]
      intro v hv c hc
      obtain ⟨r, hr, -⟩ := Option.bind_eq_some_iff.mp hv
      exact absurd h (hl.not_idle hr hc now)
    | worker k =>
      simp only [issues?, Option.bind_eq_none_iff]
      intro s hs handle _
      rw [Option.eq_none_iff_forall_ne_some]
      intro v hv
      obtain ⟨item, command, due, r, hw, hr⟩ := s.exists_apply_of_issues? hv
      exact h s item command due r hs hw hr
    | _ => rfl
  | _ => rfl

end DaemonMove

/-! ## Moves -/

/-- A move of a daemon, where the end of a pause may win over whatever else its consumer waits for.
The two steps that this takes are those of `Daemon.stepConsumer_of_elapsed`. -/
inductive RaceMove where
  /-- A task takes a step, in which a consumer goes on with the end of its pause last of all, or
  someone else does something. -/
  | moves (m : DaemonMove)
  /-- A consumer takes back a pause that has elapsed. -/
  | clears (k : ℕ)
  /-- A consumer whose pause has elapsed goes into the next round. -/
  | comesRound (k : ℕ)

/-- The pause that a consumer has sat out. -/
def Consumer.elapsed? (c : Consumer) (now : Moment) : Option Control :=
  match c.stage with
  | .pausing elapsed due => if due ≤ now then some elapsed else none
  | _ => none

/-- A consumer that has sat out a pause. -/
theorem Consumer.elapsed?_eq_some {c : Consumer} {now : Moment} {elapsed : Control}
    (h : c.elapsed? now = some elapsed) : ∃ due ≤ now, c.stage = .pausing elapsed due := by
  unfold elapsed? at h
  split at h
  · next due hstage =>
    split_ifs at h with hdue
    exact ⟨due, hdue, Option.some.inj h ▸ hstage⟩
  · cases h

namespace Daemon

/-- A daemon after one of its consumers has taken back the pause that it has sat out. -/
def clear (d : Daemon L π) (now : Moment) (k : ℕ) : Daemon L π :=
  match d.supervisor, d.consumers[k]? with
  | some s, some c =>
    match c.elapsed? now with
    | some elapsed => { d with supervisor := some (s.modify c.identity (·.resumeAfter elapsed)) }
    | none => d
  | _, _ => d

/-- A daemon after one of its consumers has gone into the next round from the pause that it has sat
out. -/
def comeRound (d : Daemon L π) (now : Moment) (k : ℕ) : Daemon L π :=
  match d.supervisor, d.consumers[k]? with
  | some s, some c =>
    match c.elapsed? now with
    | some _ =>
      { d.within (c.comeRound (d.surroundings s)).2 with
        consumers := d.consumers.set k (c.comeRound (d.surroundings s)).1 }
    | none => d
  | _, _ => d

end Daemon

namespace RaceMove

/-- The instruction that is issued to a shard in a move. -/
def issues? (d : Daemon L π) (shard : String) : RaceMove → Option Control
  | .moves m => m.issues? d shard
  | _ => none

/-- The consumer that may take back a pause in a move. -/
def consumer? : RaceMove → Option ℕ
  | .moves (.task _ (.consumer k)) | .clears k => some k
  | _ => none

/-- A move is made by a consumer of a shard that has sat out a pause. -/
def SatOut (d : Daemon L π) (shard : String) (m : RaceMove) (due : Moment) : Prop :=
  ∃ k c, m.consumer? = some k ∧ d.consumers[k]? = some c ∧ c.identity = shard ∧
    c.stage = .pausing (.pause due) due

end RaceMove

namespace Daemon

variable {d : Daemon L π} {now : Moment} {k : ℕ}

/-- A consumer takes back the pause that it has sat out, or nothing happens. -/
theorem clear_cases (d : Daemon L π) (now : Moment) (k : ℕ) :
    d.clear now k = d ∨ ∃ s c elapsed due, d.supervisor = some s ∧ d.consumers[k]? = some c ∧
      c.stage = .pausing elapsed due ∧ due ≤ now ∧
        d.clear now k =
          { d with supervisor := some (s.modify c.identity (·.resumeAfter elapsed)) } := by
  unfold clear
  split
  · next s c hs hc =>
    split
    · next elapsed helapsed =>
      obtain ⟨due, hdue, hstage⟩ := Consumer.elapsed?_eq_some helapsed
      exact .inr ⟨s, c, elapsed, due, hs, hc, hstage, hdue, rfl⟩
    · exact .inl rfl
  · exact .inl rfl

/-- A consumer goes into the next round, or nothing happens. -/
theorem comeRound_cases (d : Daemon L π) (now : Moment) (k : ℕ) :
    d.comeRound now k = d ∨ ∃ s c, d.supervisor = some s ∧ d.consumers[k]? = some c ∧
      d.comeRound now k = { d.within (c.comeRound (d.surroundings s)).2 with
        consumers := d.consumers.set k (c.comeRound (d.surroundings s)).1 } := by
  unfold comeRound
  split
  · next s c hs hc =>
    split
    · exact .inr ⟨s, c, hs, hc, rfl⟩
    · exact .inl rfl
  · exact .inl rfl

/-- What taking back a pause does to the instruction of a shard. -/
theorem instructs_clear (hp : d.Punctual) (shard : String) :
    Instructs now ((RaceMove.clears k).SatOut d shard) (d.instruction? shard) none
      ((d.clear now k).instruction? shard) := by
  rcases d.clear_cases now k with heq | ⟨s, c, elapsed, due, hs, hc, hstage, hdue, heq⟩
  · rw [heq]
    exact .keeps _
  · -- The pause that is taken back is the one that the consumer has read.
    obtain rfl : elapsed = .pause due := by
      have := hp k c hc
      rwa [Consumer.Punctual, hstage] at this
    rw [heq, instruction?_eq hs, instruction?_eq rfl]
    by_cases hidentity : c.identity = shard
    · subst hidentity
      exact s.shards.instructs_resumeAfter c.identity hdue ⟨k, c, rfl, hc, rfl, hstage⟩
    · refine .of_eq rfl ?_
      show (s.shards.modify c.identity _).instruction? shard = _
      rw [Registry.instruction?, Registry.find?_modify, if_neg (Ne.symm hidentity),
        Registry.instruction?]

/-- Going into the next round keeps the instructions. -/
theorem instruction?_comeRound (shard : String) :
    (d.comeRound now k).instruction? shard = d.instruction? shard := by
  rcases d.comeRound_cases now k with heq | ⟨s, c, hs, hc, heq⟩
  · rw [heq]
  · rw [heq, instruction?_eq hs, instruction?_eq rfl]
    exact (c.comeRound_abides (d.surroundings s) shard).instruction

end Daemon

variable [EventLog L] [Projection π]

/-- The step of a consumer whose pause has elapsed, while nothing else has come up, is to take back
the pause and to go into the next round. -/
theorem Daemon.stepConsumer_of_elapsed {d : Daemon L π} {now : Moment} {k : ℕ} {s : Supervisor}
    {c : Consumer} {p : π} {elapsed : Control} (hs : d.supervisor = some s)
    (hc : d.consumers[k]? = some c) (hp : d.projections[k]? = some p)
    (helapsed : c.elapsed? now = some elapsed) (hgoing : d.shutdown = false)
    (hnew : ((d.surroundings s).handle c.identity).control.isNew c.seenControl = false) :
    d.stepConsumer now k = (d.clear now k).comeRound now k := by
  obtain ⟨due, hdue, hstage⟩ := Consumer.elapsed?_eq_some helapsed
  have hclear : d.clear now k =
      { d with supervisor := some (s.modify c.identity (·.resumeAfter elapsed)) } := by
    simp only [clear, hs, hc, helapsed]
  have hstep : c.step p (d.surroundings s) now =
      (((c.resume (d.surroundings s) elapsed).1), p, (c.resume (d.surroundings s) elapsed).2) := by
    have hshutdown : (d.surroundings s).shutdown = false := hgoing
    simp [Consumer.step, Consumer.stepAside, hstage, hshutdown, hnew, hdue]
  have hprojections : d.projections.set k p = d.projections := by
    obtain ⟨hlt, heq⟩ := List.getElem?_eq_some_iff.mp hp
    rw [← heq]
    exact List.set_getElem_self hlt
  rw [hclear]
  simp only [stepConsumer, comeRound, hs, hc, hp, hstep, hprojections, helapsed,
    Consumer.resume_eq]
  rfl

/-- A move can be made at a moment. -/
def DaemonMove.IsAt (now : Moment) : DaemonMove → Prop
  | .task t _ | .call _ t => t = now
  | _ => True

/-- A daemon moves at a moment. The pause of a consumer may elapse while other things are ready that
it waits for, and before it looks at them. -/
inductive Raced (now : Moment) (d : Daemon L π) : RaceMove → Daemon L π → Prop where
  | moves {m : DaemonMove} {d' : Daemon L π} (hnow : m.IsAt now) (h : Moved d m d') :
    Raced now d (.moves m) d'
  | clears (k : ℕ) : Raced now d (.clears k) (d.clear now k)
  | comesRound (k : ℕ) : Raced now d (.comesRound k) (d.comeRound now k)

/-- A move that follows the launch of the daemon, and can be made at a moment. -/
def RaceMove.Follows (now : Moment) : RaceMove → Prop
  | .moves m => m.IsAt now ∧ m.Follows
  | _ => True

/-- The daemon after a move, as far as the move decides. -/
def Daemon.race (d : Daemon L π) (now : Moment) : RaceMove → Daemon L π
  | .moves m => d.perform m
  | .clears k => d.clear now k
  | .comesRound k => d.comeRound now k

/-- A daemon makes a move that follows its launch. -/
theorem Daemon.raced_race (d : Daemon L π) {now : Moment} {m : RaceMove} (h : m.Follows now) :
    Raced now d m (d.race now m) := by
  cases m with
  | moves m => exact .moves h.1 (.performs h.2)
  | clears k => exact .clears k
  | comesRound k => exact .comesRound k

/-- In a move, a consumer comes to the top of its loop and reads an instruction of its shard. -/
inductive RaceMove.Looks (now : Moment) (d : Daemon L π) (shard : String) (v : Control) :
    RaceMove → Prop where
  | steps {k : ℕ} {s : Supervisor} {c : Consumer} {p : π} (hs : d.supervisor = some s)
    (hc : d.consumers[k]? = some c) (hp : d.projections[k]? = some p)
    (h : LooksAt shard v ((c.step p (d.surroundings s) now).1,
      (c.step p (d.surroundings s) now).2.2)) :
    Looks now d shard v (.moves (.task now (.consumer k)))
  | comesRound {k : ℕ} {s : Supervisor} {c : Consumer} {elapsed : Control}
    (hs : d.supervisor = some s) (hc : d.consumers[k]? = some c)
    (helapsed : c.elapsed? now = some elapsed)
    (h : LooksAt shard v (c.comeRound (d.surroundings s))) :
    Looks now d shard v (.comesRound k)

/-! ## What moves do to instructions -/

/-- What a move does to the instruction of a shard. -/
theorem Effect.instructs {d d' : Daemon L π} {m : DaemonMove} (h : Effect d d' m)
    (hl : d.Launched) (hp : d.Punctual) {now : Moment} (hnow : m.IsAt now) (shard : String) :
    Instructs now ((RaceMove.moves m).SatOut d shard) (d.instruction? shard)
      (m.issues? d shard) (d'.instruction? shard) := by
  cases h with
  | nothing h hidle =>
    refine .of_eq (DaemonMove.issues?_of_idle hl hidle shard) ?_
    rw [Daemon.instruction?, h.handles, Daemon.instruction?]
  | @report name e s h hs hd =>
    refine .of_eq rfl ?_
    rw [Daemon.instruction?_eq hs, Daemon.instruction?, hd]
    exact s.instruction?_report _ _ e shard
  | @command now' k s item command due r h hs hw hr hd =>
    obtain rfl : now' = now := hnow
    rw [Daemon.instruction?_eq hs, DaemonMove.issues?_worker hs, Daemon.instruction?, hd]
    exact s.instructs_apply hw hr shard
  | @consumer now' k s c p h =>
    obtain rfl : now' = now := hnow
    have hafter : d'.instruction? shard =
        (c.step p (d.surroundings s) now').2.2.instruction? shard :=
      Daemon.instruction?_eq h.supervisor shard
    rw [hafter, DaemonMove.issues?_consumer h.before h.consumer, Daemon.instruction?_eq h.before]
    by_cases hidentity : c.identity = shard
    · subst hidentity
      rw [if_pos rfl]
      exact (c.step_guides (d.surroundings s) p (hl.tidy k c h.consumer) (hp k c h.consumer)
        now').instructs.imp fun due hstage => ⟨k, c, rfl, h.consumer, rfl, hstage⟩
    · rw [if_neg hidentity]
      refine .of_eq (Option.bind_fun_none _) ?_
      exact congrArg (Option.map _) ((c.step_steers (d.surroundings s) p
        (hl.tidy k c h.consumer) now').spares shard (Ne.symm hidentity))

/-- What holds of all consumers, and of the new one, holds of all of them afterwards. -/
theorem forall_consumer_set {cs : List Consumer} {P : Consumer → Prop}
    (h : ∀ (j : ℕ) (c : Consumer), cs[j]? = some c → P c) {k : ℕ} {c₀ : Consumer} (h₀ : P c₀)
    (j : ℕ) (c : Consumer) (hc : (cs.set k c₀)[j]? = some c) : P c := by
  rcases List.mem_or_eq_of_mem_set (List.mem_of_getElem? hc) with hmem | rfl
  · obtain ⟨i, hi⟩ := List.mem_iff_getElem?.mp hmem
    exact h i c hi
  · exact h₀

/-- Consumers stay punctual. -/
theorem Effect.punctual {d d' : Daemon L π} {m : DaemonMove} (h : Effect d d' m)
    (hl : d.Launched) (hp : d.Punctual) : d'.Punctual := by
  have hsame (h : SameConsumers d d') : d'.Punctual := by
    unfold Daemon.Punctual
    rwa [h.consumers]
  cases h with
  | nothing h => exact hsame h.toSameConsumers
  | command h => exact hsame h
  | report h => exact hsame h
  | @consumer now k s c p h =>
    unfold Daemon.Punctual
    rw [h.consumers]
    exact forall_consumer_set hp (c.step_guides (d.surroundings s) p (hl.tidy k c h.consumer)
      (hp k c h.consumer) now).punctual

/-- What moves keep: the daemon was launched, and its consumers are punctual. -/
structure Daemon.Orderly (d : Daemon L π) : Prop extends d.Launched where
  punctual : d.Punctual

omit [EventLog L] in
/-- A daemon is orderly after its launch. -/
theorem Daemon.orderly_of_launch {d d' : Daemon L π} {found found' : Statistics}
    (h : d.launch found = (.ok found', d')) : d'.Orderly := by
  refine ⟨Daemon.launched_of_launch h, fun k c hc => ?_⟩
  simp only [launch] at h
  split at h
  · cases h
  · obtain ⟨-, rfl⟩ := Prod.mk.inj h
    simp only [enter, List.getElem?_map, Option.map_map, Option.map_eq_some_iff] at hc
    obtain ⟨p, -, rfl⟩ := hc
    trivial

omit [EventLog L] in
/-- Every shard that is registered is told to run after the launch. -/
theorem Daemon.instruction?_of_launch {d d' : Daemon L π} {found found' : Statistics}
    (h : d.launch found = (.ok found', d')) (shard : String) :
    d'.instruction? shard = none ∨ d'.instruction? shard = some .run := by
  have hbooting := launch_booting d found
  rw [h] at hbooting
  obtain ⟨-, ⟨s, hs, hshards⟩, -⟩ := hbooting
  rw [instruction?_eq hs, hshards, Registry.instruction?, Registry.find?_ofNames]
  cases d.names.reverse.find? (·.identity = shard) with
  | none => exact .inl rfl
  | some name => exact .inr rfl

namespace Raced

variable {now : Moment} {d d' : Daemon L π} {m : RaceMove}

/-- What a move does to the instruction of a shard. -/
theorem instructs (h : Raced now d m d') (ho : d.Orderly) (shard : String) :
    Instructs now (m.SatOut d shard) (d.instruction? shard) (m.issues? d shard)
      (d'.instruction? shard) := by
  cases h with
  | moves hnow h => exact h.effect.instructs ho.toLaunched ho.punctual hnow shard
  | clears k => exact Daemon.instructs_clear ho.punctual shard
  | comesRound k => exact .of_eq rfl (Daemon.instruction?_comeRound shard)

/-- Moves keep a daemon orderly. -/
theorem orderly (h : Raced now d m d') (ho : d.Orderly) : d'.Orderly := by
  cases h with
  | moves hnow h =>
    exact ⟨h.effect.launched ho.toLaunched, h.effect.punctual ho.toLaunched ho.punctual⟩
  | clears k =>
    rcases d.clear_cases now k with heq | ⟨s, c, elapsed, due, -, -, -, -, heq⟩
    · rw [heq]
      exact ho
    · rw [heq]
      exact ⟨⟨ho.tidy, ho.wired⟩, ho.punctual⟩
  | comesRound k =>
    rcases d.comeRound_cases now k with heq | ⟨s, c, -, hc, heq⟩
    · rw [heq]
      exact ho
    · rw [heq]
      have htidy : (c.comeRound (d.surroundings s)).1.Tidy := (c.turn_heeds _).tidy
      have hpunctual := (c.comeRound_abides (d.surroundings s) c.identity).punctual
      exact ⟨⟨forall_consumer_set ho.tidy htidy, List.length_set.trans ho.wired⟩,
        forall_consumer_set ho.punctual hpunctual⟩

/-- The instruction that a consumer reads in a move is that of its shard after the move. -/
theorem instruction_of_looks (h : Raced now d m d') {shard : String} {v w : Control}
    (hlooks : m.Looks now d shard v) (hw : d'.instruction? shard = some w) : v = w := by
  cases hlooks with
  | @steps k s c p hs hc hp hlooks =>
    cases h with
    | moves _ h =>
      cases h with
      | performs _ =>
        refine hlooks.instruction (hw ▸ ?_)
        have hnext : d.perform (.task now (.consumer k)) = d.stepConsumer now k := rfl
        simp only [Daemon.stepConsumer, hs, hc, hp] at hnext
        rw [hnext, Daemon.instruction?_eq rfl]
  | @comesRound k s c elapsed hs hc helapsed hlooks =>
    cases h with
    | comesRound _ =>
      refine hlooks.instruction ?_
      rw [(c.comeRound_abides (d.surroundings s) shard).instruction, ← hw,
        Daemon.instruction?_comeRound, Daemon.instruction?_eq hs]
      rfl

end Raced

/-! ## Races -/

/-- A course of a daemon from its launch on, with the moments at which the moves are made. -/
structure Race (L π : Type) [EventLog L] [Projection π] where
  state : ℕ → Daemon L π
  clock : ℕ → Moment
  move : ℕ → RaceMove
  forward : Monotone clock
  launch : ∃ d found, Daemon.launch d found = (.ok found, state 0)
  raced : ∀ n, Raced (clock n) (state n) (move n) (state (n + 1))

namespace Race

/-- The race in which moves are made at some moments. -/
def ofMoves (d : Daemon L π) (found : Statistics) (h : (d.launch found).1 = .ok found)
    (clock : ℕ → Moment) (forward : Monotone clock) (move : ℕ → RaceMove)
    (hm : ∀ n, (move n).Follows (clock n)) : Race L π where
  state := Nat.rec (d.launch found).2 fun n d => d.race (clock n) (move n)
  clock := clock
  move := move
  forward := forward
  launch := ⟨d, found, Prod.ext h rfl⟩
  raced n := Daemon.raced_race _ (hm n)

variable (x : Race L π) (shard : String)

/-- The newest instruction that was issued to a shard before a move, a pause or a stop. -/
def newest : ℕ → Option Control
  | 0 => none
  | n + 1 => ((x.move n).issues? (x.state n) shard).or (newest n)

/-- The daemon is orderly in a race. -/
theorem orderly (n : ℕ) : (x.state n).Orderly := by
  induction n with
  | zero =>
    obtain ⟨d, found, hlaunch⟩ := x.launch
    exact Daemon.orderly_of_launch hlaunch
  | succ n ih => exact (x.raced n).orderly ih

/-- The instruction of a shard accounts for the newest one that was issued to it. -/
theorem honours (n : ℕ) :
    Honours (x.clock n) (x.newest shard n) ((x.state n).instruction? shard) := by
  induction n with
  | zero =>
    obtain ⟨d, found, hlaunch⟩ := x.launch
    rcases Daemon.instruction?_of_launch hlaunch shard with hnone | hrun
    · rw [hnone]
      rfl
    · rw [hrun]
      exact nofun
  | succ n ih =>
    exact (((x.raced n).instructs (x.orderly n) shard).honours ih).mono (x.forward n.le_succ)

/-- However the moves of a daemon are interleaved, the newest instruction of a shard is honoured;
where nobody issues a stop, this is the newest pause.

The instruction returns to `run` only if a consumer of the shard takes back this pause, at its end
or later. Whenever a consumer of the shard reads `run` at the top of its loop, the newest
instruction that was issued up to then is a pause that has ended. And no instruction is lost: the
newest one is the instruction of the shard, unless it is a pause that has ended. -/
theorem newest_honoured (n : ℕ) :
    ((x.state n).instruction? shard ≠ some .run →
      (x.state (n + 1)).instruction? shard = some .run →
        ∃ due, x.newest shard n = some (.pause due) ∧ due ≤ x.clock n ∧
          (x.state n).instruction? shard = some (.pause due) ∧
            (x.move n).SatOut (x.state n) shard due) ∧
      ∀ v, x.newest shard (n + 1) = some v →
        ((x.move n).Looks (x.clock n) (x.state n) shard .run → ∃ due ≤ x.clock n, v = .pause due) ∧
          ((x.state (n + 1)).instruction? shard = some v ∨
            (x.state (n + 1)).instruction? shard = some .run ∧
              ∃ due ≤ x.clock n, v = .pause due) := by
  have hbefore := x.honours shard n
  have hstep := (x.raced n).instructs (x.orderly n) shard
  have hafter : Honours (x.clock n) (x.newest shard (n + 1))
      ((x.state (n + 1)).instruction? shard) := hstep.honours hbefore
  constructor
  · intro hother hrun
    rw [hrun] at hstep
    obtain ⟨due, hpause, hdue, hsat⟩ := hstep.of_run hother
    rw [hpause] at hbefore
    exact ⟨due, hbefore, hdue, hpause, hsat⟩
  · intro v hv
    rw [hv] at hafter
    refine ⟨fun hlooks => ?_, hafter.eq_or⟩
    cases hvalue : (x.state (n + 1)).instruction? shard with
    | none =>
      rw [hvalue] at hafter
      cases hafter
    | some w =>
      obtain rfl : Control.run = w := (x.raced n).instruction_of_looks hlooks hvalue
      rw [hvalue] at hafter
      exact hafter v rfl

/-! ## Rehearsals -/

/-- Pauses a shard for ten milliseconds when an event fails, and all shards for five milliseconds if
something takes too long. -/
def overtaking : Policy :=
  ⟨[⟨.ofCategory .applyEvent, [.pauseShard (.ofMillis 10)]⟩,
    ⟨.ofCategory .timeout, [.pauseAllShards (.ofMillis 5)]⟩]⟩

/-- The end of the pause for a failed event. -/
def firstEnd : Moment := 10 * Duration.millisecond

/-- The end of the pause that overtakes it. -/
def secondEnd : Moment := 15 * Duration.millisecond

/-- A shard pauses after a failure. When the pause ends, a worker carries a further one to all
shards, before the consumer takes back the first. -/
def overtakingMoves : List RaceMove :=
  List.replicate 6 (.moves (.task 0 (.consumer 0))) ++
    [.moves (.report (.whole "T") (.plain .timeout "late")),
      .moves (.call (.reporting (.posting (.pauseAllShards (.ofMillis 5))
        (.sending ⟨.pauseAll (.ofMillis 5), 0⟩))) firstEnd),
      .moves (.task firstEnd .dispatcher), .moves (.task firstEnd .dispatcher),
      .moves (.task firstEnd (.worker 0)), .moves (.task firstEnd (.worker 0)),
      .clears 0, .comesRound 0, .clears 0, .comesRound 0]

/-- The moments of these moves. -/
def overtakingClock (n : ℕ) : Moment := if n < 6 then 0 else if n < 14 then firstEnd else secondEnd

/-- Time does not go back. -/
theorem monotone_overtakingClock : Monotone overtakingClock := by
  intro m n hmn
  have hends : firstEnd ≤ secondEnd := by decide
  unfold overtakingClock
  split_ifs
  all_goals first | exact le_rfl | exact hends | exact Nat.zero_le _ | omega

/-- These moves follow the launch. -/
theorem follows_overtakingMoves (n : ℕ) :
    (overtakingMoves.getD n (.moves .elsewhere)).Follows (overtakingClock n) := by
  rcases lt_or_ge n overtakingMoves.length with hlt | hge
  · have hlength : overtakingMoves.length = 16 := rfl
    rw [hlength] at hlt
    interval_cases n
    all_goals first | exact ⟨rfl, trivial⟩ | trivial
  · have hmove : overtakingMoves.getD n (.moves .elsewhere) = .moves .elsewhere := by simp [hge]
    rw [hmove]
    exact ⟨trivial, trivial⟩

/-- A race in which a pause is overtaken by another one just as it ends. -/
def overtaken : Race MemoryLog Rehearsal.ScriptedProjection :=
  ofMoves (.rehearsal [⟨1, .failure (.plain .applyEvent "poison"), some 1⟩] overtaking)
    (.empty ⟨0, false⟩) (by rfl) overtakingClock monotone_overtakingClock
    (fun n => overtakingMoves.getD n (.moves .elsewhere)) follows_overtakingMoves

/-- The pause that overtakes the other one stays when this one is to be taken back at its end, and
is taken back at its own end. Then the consumer reads that it is to run. -/
theorem newest_honoured_of_overtaken :
    overtaken.newest "T:All" 11 = some (.pause firstEnd) ∧
      overtaken.newest "T:All" 12 = some (.pause secondEnd) ∧
        overtaken.clock 12 = firstEnd ∧ overtaken.move 12 = .clears 0 ∧
          (overtaken.state 13).instruction? "T:All" = some (.pause secondEnd) ∧
            (∃ due, overtaken.newest "T:All" 14 = some (.pause due) ∧ due ≤ overtaken.clock 14) ∧
              (overtaken.move 15).Looks (overtaken.clock 15) (overtaken.state 15) "T:All" .run ∧
                ∃ due ≤ overtaken.clock 15, Control.pause secondEnd = .pause due := by
  have hlooks : (overtaken.move 15).Looks (overtaken.clock 15) (overtaken.state 15) "T:All"
      .run := .comesRound rfl rfl rfl ⟨_, _, rfl, rfl, rfl, rfl⟩
  refine ⟨by rfl, by rfl, rfl, rfl, by rfl, ?_, hlooks, ?_⟩
  · obtain ⟨due, hnewest, hdue, -⟩ :=
      (overtaken.newest_honoured "T:All" 14).1 (by decide +kernel) (by rfl)
    exact ⟨due, hnewest, hdue⟩
  · exact ((overtaken.newest_honoured "T:All" 15).2 (.pause secondEnd) (by rfl)).1 hlooks

end Race

end Tidemark
