import Tidemark.Proofs.Log.Returning
import Tidemark.Proofs.Shard.Surroundings

/-!
# How consumers end

A consumer that ends signs off: it sets the status of its shard to `stopped` and announces that it
has (`SignsOff`). The alternative is a crash. There are two kinds of it. Something that the consumer
has called may crash (`Consumer.Wrecked`), a call of its log or its projection. Or the consumer
itself comes to a number that cannot be represented (`Consumer.Overruns`): the end of a pause, or
the distance of its progress to the mark. Every step of a consumer that is not over ends it in the
first way, or crashes it for one of these reasons and then without a word, or lets it go on
(`Consumer.step_leaves`).
-/

namespace Tidemark

variable {L π : Type}

/-! ## Names and status -/

namespace Registry

/-- The name under which a shard is registered. -/
def name? (r : Registry) (shard : String) : Option ShardName := (r.find? shard).map (·.name)

/-- The status of a shard, if it is registered. -/
def status? (r : Registry) (shard : String) : Option ShardStatus := (r.find? shard).map (·.status)

/-- The name and the status of a shard are the same. -/
structure SameFace (shard : String) (r r' : Registry) : Prop where
  name : r'.name? shard = r.name? shard
  status : r'.status? shard = r.status? shard

namespace SameFace

variable {shard : String} {r r' r'' : Registry}

/-- Name and status are the same where nothing changes. -/
theorem refl (shard : String) (r : Registry) : SameFace shard r r := ⟨rfl, rfl⟩

/-- What is the same twice is the same. -/
theorem trans (h : SameFace shard r r') (h' : SameFace shard r' r'') : SameFace shard r r'' :=
  ⟨h'.name.trans h.name, h'.status.trans h.status⟩

/-- Name and status are the same where the handle is. -/
theorem of_find (h : r'.find? shard = r.find? shard) : SameFace shard r r' :=
  ⟨congrArg (Option.map _) h, congrArg (Option.map _) h⟩

/-- It is enough to compare the handles. -/
theorem of_some {h h' : ShardHandle} (hfind : r.find? shard = some h)
    (hfind' : r'.find? shard = some h') (hname : h'.name = h.name)
    (hstatus : h'.status = h.status) : SameFace shard r r' := by
  constructor
  · rw [name?, name?, hfind, hfind', Option.map_some, Option.map_some, hname]
  · rw [status?, status?, hfind, hfind', Option.map_some, Option.map_some, hstatus]

/-- Changing a handle but for its name and its status. -/
theorem modify {f : ShardHandle → ShardHandle}
    (hf : ∀ h, r.find? shard = some h → (f h).name = h.name ∧ (f h).status = h.status) :
    SameFace shard r (r.modify shard f) := by
  have hfind := r.find?_modify shard f shard
  rw [if_pos rfl] at hfind
  cases hold : r.find? shard with
  | none => exact of_find (by rw [hfind, hold]; rfl)
  | some h =>
    rw [hold] at hfind
    exact of_some hold hfind (hf h hold).1 (hf h hold).2

/-- Giving a command to all shards. -/
theorem apply {now : Moment} {command : Command} (h : r.apply now command = .ok r')
    (shard : String) : SameFace shard r r' := by
  rcases find?_apply h shard with ⟨hnone, hnone'⟩ | ⟨old, new, hold, hnew, hobey⟩
  · exact of_find (hnone'.trans hnone.symm)
  · refine of_some hold hnew (name_of_obey hobey) ?_
    rcases obey_cases hobey with ⟨rfl, -⟩ | ⟨-, -, due, rfl⟩ | ⟨-, rfl⟩ <;> rfl

/-- Reporting a failure. -/
theorem report (s : Supervisor) (m : Metrics) (identity : String) (e : Failure) (shard : String) :
    SameFace shard s.shards (s.report m identity e).2.1.shards := by
  unfold Supervisor.report Supervisor.resolve?
  cases hfind : s.shards.find? identity with
  | none => exact refl shard s.shards
  | some h =>
    -- A report counts the attempts of the handle, or resets them.
    have hcounted : SameFace shard s.shards (s.shards.modify identity fun _ =>
        if (s.policy.determine e h.nextAttempt.1).resolves then h.nextAttempt.2.resetAttempts
        else h.nextAttempt.2) := by
      by_cases hshard : shard = identity
      · subst hshard
        refine modify fun h' hh' => ?_
        obtain rfl : h = h' := Option.some.inj (hfind.symm.trans hh')
        split_ifs <;> exact ⟨rfl, rfl⟩
      · exact of_find (by rw [find?_modify, if_neg hshard])
    dsimp only [Option.map_some]
    split <;> exact hcounted

end SameFace

end Registry

namespace Surroundings

/-- The announcements of all shards. -/
def states (s : Surroundings L) : Broadcast ShardState := s.commons.tracker.states

/-- The status of a shard, if it is registered. -/
abbrev status? (s : Surroundings L) (shard : String) : Option ShardStatus :=
  s.supervisor.shards.status? shard

/-- The name under which a shard is registered. -/
abbrev name? (s : Surroundings L) (shard : String) : Option ShardName :=
  s.supervisor.shards.name? shard

end Surroundings

/-! ## What ends a consumer without a word -/

/-- The call has crashed. -/
def Outcome.Crashes {α : Type} (outcome : Outcome α) : Prop :=
  ∃ cause, outcome = .error (.crash cause)

namespace Consumer

/-- The continuation is a pause whose end cannot be represented. -/
def EndlessPause (now : Moment) : Except Error Continuation → Prop
  | .ok (.pauseShard d) | .ok (.pauseAllShards d) => Moment.limit ≤ now + d.inNanos
  | _ => False

variable [EventLog L]

/-- The next step of a consumer comes to a number that cannot be represented: the end of a pause, or
the distance of its progress to the mark, once this progress is on record. -/
def Overruns (c : Consumer) (s : Surroundings L) (now : Moment) : Prop :=
  match c.stage with
  | .reporting _ (.done outcome) => EndlessPause now outcome
  | .closing b =>
    if b.target ≤ b.committed then ¬ (b.mark - b.committed).Fits
    else
      (s.call now (EventLog.persistMark (s.handle c.identity).name b.target)).1.isOk ∧
        ¬ (b.mark - b.target).Fits
  | _ => False

/-- Something crashes that the next step of a consumer calls. -/
def Wrecked [Projection π] (c : Consumer) (p : π) (s : Surroundings L) (now : Moment) : Prop :=
  let name := (s.handle c.identity).name
  match c.stage with
  | .loading => (s.call now (EventLog.lastPersistedMark name)).1.Crashes
  | .fetching committed mark =>
    (s.call now (EventLog.fetchEvents committed mark (max s.batchSize 1))).1.Crashes
  | .saving b _ => (s.call now (EventLog.persistMark name b.handled)).1.Crashes
  | .closing b =>
    b.committed < b.target ∧ (s.call now (EventLog.persistMark name b.target)).1.Crashes
  | .applying b _ => ∃ e ∈ b.events.head?, (Projection.apply p e now).1 = .crashed
  | _ => False

/-- Nothing crashes that a consumer calls if the calls of the log return and its projection does not
crash. -/
theorem not_wrecked [ReturningLog L] [Projection π] (c : Consumer) {p : π} (s : Surroundings L)
    {now : Moment} (hp : ∀ e, (Projection.apply p e now).1 ≠ .crashed) :
    ¬ c.Wrecked p s now := by
  have hcall {α : Type} {f : LogCall L α} (hf : f.Returns) : ¬ (s.call now f).1.Crashes :=
    fun ⟨cause, hcause⟩ => hf _ _ cause hcause
  unfold Wrecked
  dsimp only
  split
  · exact hcall (ReturningLog.load _)
  · exact hcall (ReturningLog.fetch _ _ _)
  · exact hcall (ReturningLog.persist _ _)
  · exact fun h => hcall (ReturningLog.persist _ _) h.2
  · exact fun ⟨e, _, hcrashed⟩ => hp e hcrashed
  · exact id

end Consumer

/-! ## What a step does to the status -/

/-- The shard says nothing: it changes neither its status nor its name, and makes no
announcement. -/
structure Silent (shard : String) (s s' : Surroundings L) : Prop where
  face : s.supervisor.shards.SameFace shard s'.supervisor.shards
  states : s'.states = s.states

/-- The shard may say something, but not that it has stopped. -/
structure Goes (shard : String) (s s' : Surroundings L) : Prop where
  name : s'.name? shard = s.name? shard
  status : s'.status? shard = some .stopped → s.status? shard = some .stopped
  sent : s.states.sent ≤ s'.states.sent

/-- The shard signs off: its status is that it has stopped, and this is what it has announced
last. -/
structure SignsOff (shard : String) (s s' : Surroundings L) : Prop where
  name : s'.name? shard = s.name? shard
  status : ∀ status, s'.status? shard = some status → status = .stopped
  sent : s.states.sent < s'.states.sent
  announced : ∃ p, s'.states.recent.head? = some ⟨shard, p, .stopped⟩

section

variable {shard : String} {s s' s'' : Surroundings L}

/-- A shard is silent where nothing changes. -/
theorem Silent.refl (shard : String) (s : Surroundings L) : Silent shard s s :=
  ⟨.refl shard _, rfl⟩

/-- Whoever is silent twice is silent. -/
theorem Silent.trans (h : Silent shard s s') (h' : Silent shard s' s'') : Silent shard s s'' :=
  ⟨h.face.trans h'.face, h'.states.trans h.states⟩

/-- Whoever is silent does not say that he has stopped. -/
theorem Silent.goes (h : Silent shard s s') : Goes shard s s' :=
  ⟨h.face.name, fun hs => h.face.status.symm.trans hs, by rw [h.states]⟩

/-- Whoever does not say twice that he has stopped does not say so. -/
theorem Goes.trans (h : Goes shard s s') (h' : Goes shard s' s'') : Goes shard s s'' :=
  ⟨h'.name.trans h.name, h.status ∘ h'.status, h.sent.trans h'.sent⟩

/-- Changing a handle but for its name and its status is silent. -/
theorem silent_modify {f : ShardHandle → ShardHandle}
    (hf : ∀ h, s.supervisor.shards.find? shard = some h →
      (f h).name = h.name ∧ (f h).status = h.status) :
    Silent shard s (s.modify shard f) := ⟨.modify hf, rfl⟩

/-- Carrying a report on is silent, also where it gives a command to all shards. -/
theorem silent_reporting (s : Surroundings L) (shard : String) (r : Reporting) (now : Moment) :
    Silent shard s
      { s with supervisor := (r.step s.supervisor s.commons.metrics now).2.1,
               commons := { s.commons with
                 metrics := (r.step s.supervisor s.commons.metrics now).2.2 } } := by
  refine ⟨?_, rfl⟩
  dsimp only
  rw [Reporting.shards_step]
  split
  · next command _ =>
    rcases Supervisor.obeyed_cases command now s.supervisor.shards with heq | happly
    · rw [heq]
      exact .refl shard _
    · exact .apply happly shard
  · exact .refl shard _

/-- A call of the log is silent. -/
theorem silent_call {α : Type} {now : Moment} {f : LogCall L α} {outcome : Outcome α}
    (h : s.call now f = (outcome, s')) : Silent shard s s' := by
  obtain ⟨log, -, rfl⟩ := Surroundings.call_eq h
  exact ⟨.refl shard _, rfl⟩

/-- The status after it was set. -/
theorem status?_setStatus (s : Surroundings L) (shard : String) (status : ShardStatus) :
    (s.setStatus shard status).status? shard = (s.status? shard).map fun _ => status := by
  unfold Surroundings.status? Registry.status? Surroundings.setStatus Surroundings.modify
    Surroundings.measure Supervisor.modify
  rw [Registry.find?_modify, if_pos rfl, Option.map_map, Option.map_map]
  rfl

/-- Setting the status keeps the name. -/
theorem name?_setStatus (s : Surroundings L) (shard : String) (status : ShardStatus) :
    (s.setStatus shard status).name? shard = s.name? shard := by
  unfold Surroundings.name? Registry.name? Surroundings.setStatus Surroundings.modify
    Surroundings.measure Supervisor.modify
  rw [Registry.find?_modify, if_pos rfl, Option.map_map]
  rfl

/-- Setting another status than `stopped` does not say that the shard has stopped. -/
theorem goes_setStatus (s : Surroundings L) (shard : String) {status : ShardStatus}
    (h : status ≠ .stopped) : Goes shard s (s.setStatus shard status) := by
  refine ⟨name?_setStatus s shard status, fun hs => ?_, le_refl _⟩
  rw [status?_setStatus] at hs
  obtain ⟨old, -, rfl⟩ := Option.map_eq_some_iff.mp hs
  exact absurd rfl h

/-- Subscribing to the mark and setting the status to `running` does not say that the shard has
stopped. -/
theorem goes_begun (s : Surroundings L) (shard : String) : Goes shard s (s.begun shard) := by
  let tracker := (s.commons.tracker.subscribe (s.handle shard).name).2
  let subscribed : Surroundings L := { s with commons := { s.commons with tracker := tracker } }
  have hsubscribed : Goes shard s subscribed := ⟨rfl, id, le_refl _⟩
  exact hsubscribed.trans
    (goes_setStatus subscribed shard (show ShardStatus.running ≠ .stopped by decide))

/-- Making an announcement changes no status. -/
theorem goes_announce (s : Surroundings L) (shard : String) (action : ShardAction) :
    Goes shard s (s.announce shard action) := ⟨rfl, id, Nat.le_succ _⟩

end

/-! ## Parts of a step -/

/-- How a part of a step leaves a shard, which breaks off in certain circumstances only. -/
inductive Leaves (shard : String) (s : Surroundings L) (breaks : Prop)
    (out : Consumer.Stepped L) : Prop where
  /-- It ends the consumer, which signs off. -/
  | signsOff (hstage : out.1.stage = .ended) (hnot : ¬ breaks) (h : SignsOff shard s out.2)
  /-- It crashes the consumer, which says nothing. -/
  | breaksOff (hstage : out.1.stage = .crashed) (hbreaks : breaks) (h : Silent shard s out.2)
  /-- The consumer goes on. -/
  | goesOn (hgoing : out.1.isOver = false) (hnot : ¬ breaks) (h : Goes shard s out.2)

namespace Leaves

variable {shard : String} {s s' : Surroundings L} {breaks : Prop} {out : Consumer.Stepped L}

/-- The circumstances may be described in another way. -/
theorem congr {breaks' : Prop} (h : Leaves shard s breaks out) (hb : breaks' ↔ breaks) :
    Leaves shard s breaks' out := by
  rw [propext hb]
  exact h

/-- The name of the shard stays. -/
theorem name (h : Leaves shard s breaks out) : out.2.name? shard = s.name? shard := by
  cases h with
  | signsOff _ _ h => exact h.name
  | breaksOff _ _ h => exact h.face.name
  | goesOn _ _ h => exact h.name

/-- What signs off after something silent signs off. -/
theorem after (h : Leaves shard s' breaks out) (hs : Silent shard s s') :
    Leaves shard s breaks out := by
  cases h with
  | signsOff hstage hnot h =>
    exact .signsOff hstage hnot
      ⟨h.name.trans hs.face.name, h.status, hs.goes.sent.trans_lt h.sent, h.announced⟩
  | breaksOff hstage hbreaks h => exact .breaksOff hstage hbreaks (hs.trans h)
  | goesOn hgoing hnot h => exact .goesOn hgoing hnot (hs.goes.trans h)

/-- What does not break off may follow after anything but the end. -/
theorem after_goes (h : Leaves shard s' False out) (hs : Goes shard s s') :
    Leaves shard s False out := by
  cases h with
  | signsOff hstage hnot h =>
    exact .signsOff hstage hnot
      ⟨h.name.trans hs.name, h.status, hs.sent.trans_lt h.sent, h.announced⟩
  | breaksOff hstage hbreaks h => exact hbreaks.elim
  | goesOn hgoing hnot h => exact .goesOn hgoing hnot (hs.trans h)

end Leaves

namespace Consumer

variable (c : Consumer) (s : Surroundings L)

/-- A consumer that ends signs off. -/
theorem finish_leaves : Leaves c.identity s False (c.finish s) := by
  refine .signsOff rfl id ⟨name?_setStatus s c.identity .stopped, fun status h => ?_,
    Nat.lt_succ_self _, _, rfl⟩
  have hset : (s.setStatus c.identity .stopped).status? c.identity = some status := h
  rw [status?_setStatus] at hset
  obtain ⟨old, -, rfl⟩ := Option.map_eq_some_iff.mp hset
  rfl

/-- A consumer that weighs its position goes on. -/
theorem weigh_leaves (p : Position) : Leaves c.identity s False (c.weigh s p) := by
  refine .goesOn ?_ id (Silent.refl c.identity s).goes
  simp only [weigh, at_, isOver]
  split_ifs <;> rfl

/-- A consumer that goes into the next round signs off or goes on. -/
theorem turn_leaves : Leaves c.identity s False (c.turn s) := by
  let seen : Consumer := { c with seenControl := (s.handle c.identity).control.version }
  unfold turn
  split_ifs
  · exact c.finish_leaves s
  · dsimp only
    split
    · exact seen.finish_leaves s
    · refine .goesOn rfl id ((goes_setStatus s c.identity ?_).trans (goes_announce _ c.identity _))
      decide
    · split
      · exact .goesOn rfl id (Silent.refl c.identity s).goes
      · exact seen.weigh_leaves s _

/-- A consumer whose pause has elapsed signs off or goes on. -/
theorem resume_leaves (elapsed : Control) : Leaves c.identity s False (c.resume s elapsed) := by
  have hmodify : Silent c.identity s (s.modify c.identity (·.resumeAfter elapsed)) :=
    silent_modify fun h _ => by
      unfold ShardHandle.resumeAfter
      split_ifs <;> exact ⟨rfl, rfl⟩
  exact (c.turn_leaves _).after_goes (hmodify.goes.trans
    ((goes_setStatus _ c.identity (by decide)).trans (goes_announce _ c.identity _)))

/-- A consumer that gives up a batch signs off or goes on. -/
theorem restart_leaves (saved : Position) (flow : Flow) :
    Leaves c.identity s False (c.restart s saved flow) := by
  cases flow with
  | exit => exact finish_leaves { c with position := some saved } s
  | next => exact turn_leaves { c with position := some saved } s
  | refetch => exact turn_leaves { c with position := some saved } s

/-- A consumer that ends a batch breaks off exactly if the distance of its progress to the mark
cannot be represented. -/
theorem commit_leaves (now : Moment) (b : Batch) (saved : Position) :
    Leaves c.identity s (¬ (b.mark - saved).Fits) (c.commit s now b saved) := by
  have hreset : Silent c.identity s (s.modify c.identity (·.resetAttempts)) :=
    silent_modify fun _ _ => ⟨rfl, rfl⟩
  obtain ⟨f, hf⟩ := c.commit_eq s now b saved
  rw [hf]
  by_cases hfits : (b.mark - saved).Fits
  · simp only [if_pos hfits]
    refine .congr ?_ (iff_of_false (not_not.mpr hfits) id)
    refine (turn_leaves { c with position := some saved } _).after_goes ?_
    exact hreset.goes.trans ⟨rfl, id, Nat.le_succ _⟩
  · simp only [if_neg hfits]
    exact .breaksOff rfl hfits (hreset.trans ⟨.refl _ _, rfl⟩)

variable [Projection π] (p : π)

/-- A consumer that turns to the events of a batch goes on. -/
theorem advance_leaves (b : Batch) (now : Moment) :
    Leaves c.identity s False (c.advance p b now, s) := by
  refine .goesOn ?_ id (Silent.refl c.identity s).goes
  unfold advance
  split <;> rfl

/-- A consumer that goes on after a failure signs off or goes on. -/
theorem goOn_leaves (now : Moment) (i : Interrupted) (flow : Flow) :
    Leaves c.identity s False (c.goOn p s now i flow) := by
  cases i with
  | loading | fetching =>
    simp only [goOn]
    split_ifs
    · exact c.finish_leaves s
    · exact c.turn_leaves s
  | saving b cause =>
    simp only [goOn]
    split_ifs
    · exact .goesOn rfl id (Silent.refl c.identity s).goes
    · exact c.restart_leaves s _ flow
  | applying b saved =>
    simp only [goOn]
    split_ifs
    · split
      · exact c.advance_leaves s p b now
      · exact (c.advance_leaves _ p _ now).after_goes ⟨rfl, id, Nat.le_succ _⟩
    · exact c.restart_leaves s _ flow
  | closing b => exact c.restart_leaves s _ flow

/-- A consumer that acts on a continuation breaks off exactly if this is a pause whose end cannot be
represented. -/
theorem act_leaves (now : Moment) (i : Interrupted) (outcome : Except Error Continuation) :
    Leaves c.identity s (EndlessPause now outcome) (c.act p s now i outcome) := by
  have hpause {k : Continuation} {d : Duration} (hk : k = .pauseShard d ∨ k = .pauseAllShards d) :
      Leaves c.identity s (Moment.limit ≤ now + d.inNanos) (c.act p s now i (.ok k)) := by
    rcases c.act_pause p s now i hk with ⟨due, hdue, hpaused⟩ | ⟨hnone, hcrashed⟩
    · have hlt : now + d.inNanos < Moment.limit := by
        by_contra hge
        simp [Moment.after, hge] at hdue
      rw [hpaused]
      refine .congr ?_ (iff_of_false (not_le.mpr hlt) id)
      exact (c.goOn_leaves _ p now i _).after (silent_modify fun h hfind => by
        simp [Surroundings.handle, hfind])
    · have hge : Moment.limit ≤ now + d.inNanos := by
        by_contra hlt
        exact hnone _ (if_pos (not_le.mp hlt))
      rw [hcrashed]
      exact .breaksOff rfl hge ⟨.refl _ _, rfl⟩
  have hstop : Leaves c.identity s False (c.goOn p (s.modify c.identity (·.stop)) now i .exit) :=
    (c.goOn_leaves _ p now i _).after (silent_modify fun _ _ => ⟨rfl, rfl⟩)
  cases outcome with
  | error e => exact hstop
  | ok k =>
    cases k with
    | skipEvent | doNothing => exact c.goOn_leaves s p now i _
    | retryLater d =>
      simp only [act]
      split_ifs
      · exact c.goOn_leaves s p now i _
      · exact .goesOn rfl id (Silent.refl c.identity s).goes
    | pauseShard d => exact hpause (.inl rfl)
    | pauseAllShards d => exact hpause (.inr rfl)
    | stopShard | stopAllShards => exact hstop

variable [EventLog L]

omit [Projection π] [EventLog L] in
/-- A consumer that calls the log breaks off if the call crashes, or if it does so once it is
answered. -/
theorem proceed_leaves {α : Type} (i : Interrupted) (category : Category) (now : Moment)
    (f : LogCall L α) {k : α → Surroundings L → Stepped L} (breaks : Prop)
    (hk : ∀ a s', Leaves c.identity s' breaks (k a s')) :
    Leaves c.identity s ((s.call now f).1.Crashes ∨ (s.call now f).1.isOk ∧ breaks)
      (c.proceed i category (s.call now f) k) := by
  cases h : s.call now f with
  | mk outcome s' =>
    have hsilent : Silent c.identity s s' := silent_call h
    cases outcome with
    | ok a =>
      refine .congr ((hk a s').after hsilent) ⟨?_, fun hb => .inr ⟨rfl, hb⟩⟩
      rintro (⟨cause, hcause⟩ | ⟨-, hb⟩)
      · cases hcause
      · exact hb
    | error fault =>
      cases fault with
      | error e =>
        refine .goesOn rfl ?_ hsilent.goes
        rintro (⟨cause, hcause⟩ | ⟨hok, -⟩)
        · cases hcause
        · cases hok
      | crash cause =>
        exact .breaksOff rfl (.inl ⟨cause, rfl⟩) ⟨hsilent.face, hsilent.states⟩

/-- Every step of a consumer that is not over ends it, and then the consumer signs off, or crashes
it, or lets it go on. It crashes exactly if the step comes to a number that cannot be represented,
or calls something that crashes. -/
theorem step_leaves (now : Moment) (hgoing : c.isOver = false) :
    Leaves c.identity s (c.Overruns s now ∨ c.Wrecked p s now)
      ((c.step p s now).1, (c.step p s now).2.2) := by
  obtain ⟨identity, stage, seenMark, seenControl, position⟩ := c
  let c : Consumer := ⟨identity, stage, seenMark, seenControl, position⟩
  -- Most stages have no reason to crash.
  have hnone {out : Stepped L} (h : Leaves identity s False out)
      (hb : ¬ (c.Overruns s now ∨ c.Wrecked p s now)) :
      Leaves identity s (c.Overruns s now ∨ c.Wrecked p s now) out :=
    h.congr (iff_of_false hb id)
  cases stage with
  | opening =>
    refine hnone ?_ (by simp [Overruns, Wrecked, c])
    simp only [step]
    rw [c.stepAside_opening rfl]
    exact ((c.begun s).turn_leaves (s.begun identity)).after_goes (goes_begun s identity)
  | pausing elapsed due =>
    refine hnone ?_ (by simp [Overruns, Wrecked, c])
    simp only [step, stepAside]
    split_ifs
    · exact c.finish_leaves s
    · exact c.turn_leaves s
    · exact c.resume_leaves s elapsed
    · exact .goesOn rfl id (Silent.refl identity s).goes
  | loading =>
    refine (c.proceed_leaves s .loading .eventFetch now _ False fun a s' => ?_).congr
      (by simp [Overruns, Wrecked])
    obtain ⟨saved, updated⟩ := a
    have hloaded : Silent identity s' (s'.modify identity ({ · with position := saved })) :=
      silent_modify fun _ _ => ⟨rfl, rfl⟩
    exact (weigh_leaves { c with position := some saved } _ saved).after_goes
      (hloaded.goes.trans (goes_announce _ identity .started))
  | idle => exact hnone (c.turn_leaves s) (by simp [Overruns, Wrecked, c])
  | fetching committed mark =>
    exact (c.proceed_leaves s .fetching .eventFetch now _ False fun events s' =>
      c.advance_leaves s' p _ now).congr (by simp [Overruns, Wrecked])
  | applying b due =>
    simp only [step]
    cases hevents : b.events with
    | nil => exact .goesOn rfl (by simp [Overruns, Wrecked, hevents]) (Silent.refl identity s).goes
    | cons e rest =>
      have hbreaks : (c.Overruns s now ∨ c.Wrecked p s now) ↔
          (Projection.apply p e now).1 = .crashed := by
        simp [Overruns, Wrecked, c, hevents]
      refine .congr ?_ hbreaks
      dsimp only
      cases hresult : (Projection.apply p e now).1 with
      | ok => exact (c.advance_leaves s _ _ now).congr (by simp)
      | failed cause =>
        simp only [applied]
        split_ifs <;> exact .goesOn rfl (by simp) (Silent.refl identity s).goes
      | crashed => exact .breaksOff rfl rfl ⟨.refl _ _, rfl⟩
  | saving b cause =>
    refine (c.proceed_leaves s (.saving b cause) .progressUpdate now _ False fun a s' => ?_).congr
      (by simp [Overruns, Wrecked])
    have hsaved : Silent identity s' (s'.modify identity ({ · with position := b.handled })) :=
      silent_modify fun _ _ => ⟨rfl, rfl⟩
    exact .goesOn rfl id hsaved.goes
  | closing b =>
    simp only [step, stepAside]
    split_ifs with hend
    · refine (c.commit_leaves s now b b.committed).congr ?_
      simp [Overruns, Wrecked, hend, not_lt.mpr hend]
    · refine (c.proceed_leaves s (.closing b) .progressUpdate now _ (¬ (b.mark - b.target).Fits)
        fun a s' => ?_).congr ?_
      · exact (c.commit_leaves _ now b b.target).after (silent_modify fun _ _ => ⟨rfl, rfl⟩)
      · simp [Overruns, Wrecked, hend, not_le.mp hend, or_comm]
  | failing i e =>
    have hreported : Silent identity s
        { s with supervisor := (s.supervisor.report s.commons.metrics identity e).2.1,
                 commons := { s.commons with
                   metrics := (s.supervisor.report s.commons.metrics identity e).2.2 } } :=
      ⟨.report s.supervisor _ identity e identity, rfl⟩
    exact .goesOn rfl (by simp [Overruns, Wrecked]) hreported.goes
  | reporting i r =>
    cases r with
    | done outcome =>
      exact (c.act_leaves s p now i outcome).congr (by simp [Overruns, Wrecked])
    | posting k present =>
      exact .goesOn rfl (by simp [Overruns, Wrecked])
        (silent_reporting s identity (.posting k present) now).goes
  | backingOff i due => exact hnone (c.goOn_leaves s p now i _) (by simp [Overruns, Wrecked, c])
  | ended => cases hgoing
  | crashed => cases hgoing

end Consumer

end Tidemark
