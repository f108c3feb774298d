import Tidemark.Proofs.Shard.Steering

/-!
# Pauses and instructions

What happens to the instruction of a shard is one of four things (`Instructs`): it stays, it becomes
a pause or a stop that someone issues, or a pause that is over is taken back. A pause is only taken
back where it still is the instruction, so whatever else was issued meanwhile, the instruction of a
shard accounts for the newest pause (`Honours`): it is this pause, or the pause is over, or the
shard was told to stop. `Instructs.honours` says that this stays so.

A consumer sits out the pause that it has read (`Consumer.Punctual`), and a step of it does one of
these things to the instruction of its shard (`Consumer.step_guides`).
-/

namespace Tidemark

variable {L π : Type}

/-! ## Instructions -/

/-- The instruction of a shard, if it is registered. -/
def Registry.instruction? (r : Registry) (shard : String) : Option Control :=
  (r.find? shard).map (·.control.value)

/-- The instruction of a shard, if it is registered. -/
abbrev Surroundings.instruction? (s : Surroundings L) (shard : String) : Option Control :=
  s.supervisor.shards.instruction? shard

namespace Registry

variable (r : Registry) (i : String)

/-- The instruction of a shard after its handle was changed. -/
theorem instruction?_modify_self (f : ShardHandle → ShardHandle) :
    (r.modify i f).instruction? i = (r.find? i).map fun h => (f h).control.value := by
  rw [instruction?, find?_modify, if_pos rfl, Option.map_map]
  rfl

/-- Changing a handle but for its instruction keeps all instructions. -/
theorem instruction?_modify {f : ShardHandle → ShardHandle}
    (hf : ∀ h, (f h).control = h.control) (j : String) :
    (r.modify i f).instruction? j = r.instruction? j := by
  unfold instruction?
  rw [find?_modify]
  split_ifs
  · rw [Option.map_map]
    exact Option.map_congr fun h _ => congrArg Watched.value (hf h)
  · rfl

end Registry

namespace Surroundings

variable (s : Surroundings L) (i : String)

/-- The instruction of a shard after its handle was changed. -/
theorem instruction?_modify_self (f : ShardHandle → ShardHandle) :
    (s.modify i f).instruction? i =
      (s.supervisor.shards.find? i).map fun h => (f h).control.value :=
  s.supervisor.shards.instruction?_modify_self i f

/-- Changing a handle but for its instruction keeps all instructions. -/
theorem instruction?_modify {f : ShardHandle → ShardHandle}
    (hf : ∀ h, (f h).control = h.control) (shard : String) :
    (s.modify i f).instruction? shard = s.instruction? shard :=
  s.supervisor.shards.instruction?_modify i hf shard

/-- Setting a status keeps all instructions. -/
theorem instruction?_setStatus (status : ShardStatus) (shard : String) :
    (s.setStatus i status).instruction? shard = s.instruction? shard :=
  s.instruction?_modify i (f := ({ · with status := status })) (fun _ => rfl) shard

end Surroundings

/-- What happens to an instruction at a moment, with the pause or the stop that is issued, if any. A
pause that is taken back is over, and has been sat out. -/
inductive Instructs (now : Moment) (SatOut : Moment → Prop) :
    Option Control → Option Control → Option Control → Prop where
  | keeps (v : Option Control) : Instructs now SatOut v none v
  | obeys (v : Control) {w : Control} (hw : w ≠ .run) :
    Instructs now SatOut (some v) (some w) (some w)
  | resumes {due : Moment} (hdue : due ≤ now) (hsat : SatOut due) :
    Instructs now SatOut (some (.pause due)) none (some .run)

/-- An instruction accounts for the newest one that was issued, if any: it is this one, or this one
is a pause that has ended before a moment. -/
def Honours (now : Moment) (newest : Option Control) : Option Control → Prop
  | none => newest = none
  | some .run => ∀ v, newest = some v → ∃ due ≤ now, v = .pause due
  | some v => newest = some v

/-- An instruction accounts for the newest one later on, too. -/
theorem Honours.mono {now now' : Moment} {newest : Option Control} {v : Option Control}
    (h : Honours now newest v) (hle : now ≤ now') : Honours now' newest v := by
  cases v with
  | none => exact h
  | some v =>
    cases v with
    | run =>
      intro w hw
      obtain ⟨due, hdue, hpause⟩ := h w hw
      exact ⟨due, hdue.trans hle, hpause⟩
    | pause due => exact h
    | stop => exact h

/-- What is issued to a shard is its instruction, unless it is a pause that has ended. -/
theorem Honours.eq_or {now : Moment} {v : Control} {w : Option Control}
    (h : Honours now (some v) w) :
    w = some v ∨ w = some .run ∧ ∃ due ≤ now, v = .pause due := by
  cases w with
  | none => cases h
  | some w =>
    cases w with
    | run => exact .inr ⟨rfl, h v rfl⟩
    | pause due => exact .inl (Eq.symm h)
    | stop => exact .inl (Eq.symm h)

namespace Instructs

variable {now : Moment} {SatOut SatOut' : Moment → Prop} {v v' newest issued : Option Control}

/-- Whoever has sat out a pause may be described in another way. -/
theorem imp (h : Instructs now SatOut v issued v') (himp : ∀ due, SatOut due → SatOut' due) :
    Instructs now SatOut' v issued v' := by
  cases h with
  | keeps => exact .keeps v
  | obeys v hw => exact .obeys v hw
  | resumes hdue hsat => exact .resumes hdue (himp _ hsat)

/-- Where nothing is issued, an instruction may stay as it is. -/
theorem of_eq (hissued : issued = none) (hv : v' = v) : Instructs now SatOut v issued v' := by
  subst hissued hv
  exact .keeps v'

/-- Whatever happens to an instruction that accounts for the newest one that was issued, it then
accounts for the one that is the newest afterwards. -/
theorem honours (h : Instructs now SatOut v issued v') (hv : Honours now newest v) :
    Honours now (issued.or newest) v' := by
  cases h with
  | keeps => exact hv
  | @obeys v w hw =>
    cases w with
    | run => exact absurd rfl hw
    | pause due => rfl
    | stop => rfl
  | @resumes due hdue hsat =>
    -- Only the newest pause can be taken back, since it is the only one that is the instruction.
    intro w hnewest
    have hsame : some (Control.pause due) = some w := hv.symm.trans hnewest
    exact ⟨due, hdue, (Option.some.inj hsame).symm⟩

/-- The instruction becomes `run` only where a pause is taken back. -/
theorem of_run (h : Instructs now SatOut v issued (some .run)) (hv : v ≠ some .run) :
    ∃ due, v = some (.pause due) ∧ due ≤ now ∧ SatOut due := by
  cases h with
  | keeps => exact absurd rfl hv
  | obeys v hw => exact absurd rfl hw
  | resumes hdue hsat => exact ⟨_, rfl, hdue, hsat⟩

end Instructs

/-- Taking back a pause that is over and has been sat out. -/
theorem Registry.instructs_resumeAfter (r : Registry) (shard : String) {now due : Moment}
    {SatOut : Moment → Prop} (hdue : due ≤ now) (hsat : SatOut due) :
    Instructs now SatOut (r.instruction? shard) none
      ((r.modify shard (·.resumeAfter (.pause due))).instruction? shard) := by
  rw [r.instruction?_modify_self, instruction?]
  cases r.find? shard with
  | none => exact .keeps none
  | some h =>
    simp only [Option.map_some, ShardHandle.resumeAfter]
    split_ifs with heq
    · rw [heq]
      exact .resumes hdue hsat
    · exact .keeps _

/-- Reporting a failure keeps all instructions. -/
theorem Supervisor.instruction?_report (s : Supervisor) (m : Metrics) (i : String) (e : Failure)
    (shard : String) :
    (s.report m i e).2.1.shards.instruction? shard = s.shards.instruction? shard := by
  unfold Registry.instruction?
  cases hfind : s.shards.find? shard with
  | none =>
    by_cases hshard : shard = i
    · subst hshard
      simp [report, resolve?, hfind]
    · rw [s.find?_report m i e hshard, hfind]
  | some h =>
    obtain ⟨h', hfind', hcontrol, -⟩ := s.find?_report_some m i e hfind
    rw [hfind', Option.map_some, Option.map_some, hcontrol]

/-- A command is carried to all shards, if it is not a pause whose end cannot be represented. -/
theorem Registry.exists_apply (r : Registry) (now : Moment) (command : Command)
    (hdue : ∀ delay, command = .pauseAll delay → ∃ due, now.after delay = .ok due) :
    ∃ r', r.apply now command = .ok r' := by
  have hobey (h : ShardHandle) : ∃ h', obey now command h = .ok h' := by
    cases command with
    | stopAll => exact ⟨_, rfl⟩
    | pauseAll delay =>
      obtain ⟨due, hafter⟩ := hdue delay rfl
      simp only [obey, ShardHandle.pause, hafter]
      split_ifs <;> exact ⟨_, rfl⟩
  choose f hf using hobey
  refine ⟨_, bind_eq_ok.mpr ⟨r.entries.map fun entry => (entry.1, f entry.2),
    mapM_eq_ok.mpr ?_, rfl⟩⟩
  rw [List.forall₂_map_right_iff, List.forall₂_same]
  rintro ⟨i, h⟩ -
  exact bind_eq_ok.mpr ⟨f h, hf h, rfl⟩

/-! ## Steps of consumers -/

/-- The instruction that a shard gives itself when it acts on a continuation. -/
def Continuation.instruction? (now : Moment) : Continuation → Option Control
  | .pauseShard d | .pauseAllShards d => (now.after d).toOption.map .pause
  | .stopShard | .stopAllShards => some .stop
  | _ => none

/-- The instruction that a consumer gives its shard in its next step. -/
def Consumer.issues? (c : Consumer) (now : Moment) : Option Control :=
  match c.stage with
  | .reporting _ (.done (.ok k)) => k.instruction? now
  | .reporting _ (.done (.error _)) => some .stop
  | _ => none

/-- A consumer that sits out a pause has read this pause. -/
def Consumer.Punctual (c : Consumer) : Prop :=
  match c.stage with
  | .pausing elapsed due => elapsed = .pause due
  | _ => True

/-- A part of a step keeps the instruction of a shard and leads to a punctual consumer. -/
structure Abides (shard : String) (s : Surroundings L) (out : Consumer.Stepped L) : Prop where
  punctual : out.1.Punctual
  instruction : out.2.instruction? shard = s.instruction? shard

/-- What a part of a step does to the instruction of a shard, and that it leads to a punctual
consumer. -/
structure Guides (shard : String) (now : Moment) (SatOut : Moment → Prop) (issued : Option Control)
    (s : Surroundings L) (out : Consumer.Stepped L) : Prop where
  punctual : out.1.Punctual
  instructs : Instructs now SatOut (s.instruction? shard) issued (out.2.instruction? shard)

section

variable {shard : String} {s s' : Surroundings L} {out : Consumer.Stepped L} {now : Moment}
  {SatOut : Moment → Prop} {issued : Option Control}

/-- An instruction that was kept before is kept. -/
theorem Abides.after (h : Abides shard s' out)
    (hs : s'.instruction? shard = s.instruction? shard) : Abides shard s out :=
  ⟨h.punctual, h.instruction.trans hs⟩

/-- Where an instruction is kept, no pause is issued. -/
theorem Abides.guides (h : Abides shard s out) : Guides shard now SatOut none s out :=
  ⟨h.punctual, by rw [h.instruction]; exact .keeps _⟩

/-- What was done to an instruction before it is kept. -/
theorem Abides.guides_after (h : Abides shard s' out)
    (hs : Instructs now SatOut (s.instruction? shard) issued (s'.instruction? shard)) :
    Guides shard now SatOut issued s out :=
  ⟨h.punctual, by rw [h.instruction]; exact hs⟩

end

namespace Consumer

variable (c : Consumer) (s : Surroundings L) (shard : String)

/-- A consumer that ends keeps the instructions. -/
theorem finish_abides : Abides shard s (c.finish s) where
  punctual := trivial
  instruction := s.instruction?_setStatus c.identity .stopped shard

/-- A consumer that weighs its position keeps the instructions. -/
theorem weigh_abides (p : Position) : Abides shard s (c.weigh s p) := by
  refine ⟨?_, rfl⟩
  unfold weigh Punctual
  dsimp only [at_]
  split_ifs <;> trivial

/-- A consumer that goes into the next round keeps the instructions, and sits out the pause that it
reads. -/
theorem turn_abides : Abides shard s (c.turn s) := by
  let seen : Consumer := { c with seenControl := (s.handle c.identity).control.version }
  unfold turn
  split_ifs
  · exact c.finish_abides s shard
  · dsimp only
    split
    · exact seen.finish_abides s shard
    · exact ⟨rfl, s.instruction?_setStatus c.identity .paused shard⟩
    · split
      · exact ⟨trivial, rfl⟩
      · exact seen.weigh_abides s shard _

/-- A consumer that gives up a batch keeps the instructions. -/
theorem restart_abides (saved : Position) (flow : Flow) :
    Abides shard s (c.restart s saved flow) := by
  cases flow with
  | exit => exact finish_abides { c with position := some saved } s shard
  | next => exact turn_abides { c with position := some saved } s shard
  | refetch => exact turn_abides { c with position := some saved } s shard

/-- A consumer that ends a batch keeps the instructions. -/
theorem commit_abides (now : Moment) (b : Batch) (saved : Position) :
    Abides shard s (c.commit s now b saved) := by
  have hreset : (s.modify c.identity (·.resetAttempts)).instruction? shard = s.instruction? shard :=
    s.instruction?_modify c.identity (f := (·.resetAttempts)) (fun _ => rfl) shard
  unfold commit
  dsimp only
  split
  · exact ⟨trivial, hreset⟩
  · rename_i h
    obtain ⟨-, rfl⟩ := Prod.mk.inj h
    exact (turn_abides { c with position := some saved } _ shard).after hreset

variable [Projection π] (p : π)

/-- A consumer that turns to the events of a batch keeps the instructions. -/
theorem advance_abides (b : Batch) (now : Moment) : Abides shard s (c.advance p b now, s) := by
  unfold advance
  split <;> exact ⟨trivial, rfl⟩

/-- A consumer that goes on after a failure keeps the instructions. -/
theorem goOn_abides (now : Moment) (i : Interrupted) (flow : Flow) :
    Abides shard s (c.goOn p s now i flow) := by
  cases i with
  | loading =>
    simp only [goOn]
    split_ifs
    · exact c.finish_abides s shard
    · exact c.turn_abides s shard
  | fetching =>
    simp only [goOn]
    split_ifs
    · exact c.finish_abides s shard
    · exact c.turn_abides s shard
  | saving b cause =>
    simp only [goOn]
    split_ifs
    · exact ⟨trivial, rfl⟩
    · exact c.restart_abides s shard _ flow
  | applying b saved =>
    simp only [goOn]
    split_ifs
    · split
      · exact c.advance_abides s shard p b now
      · exact (c.advance_abides _ shard p _ now).after rfl
    · exact c.restart_abides s shard _ flow
  | closing b => exact c.restart_abides s shard _ flow

/-- A consumer that acts on a continuation issues the pause or the stop that it asks for. A shard
that is not registered stops. -/
theorem act_guides (now : Moment) (i : Interrupted) (outcome : Except Error Continuation)
    (SatOut : Moment → Prop) :
    Guides c.identity now SatOut
      ((s.instruction? c.identity).bind fun _ =>
        (c.at_ (.reporting i (.done outcome))).issues? now) s
      (c.act p s now i outcome) := by
  have hquiet {flow : Flow} : Guides c.identity now SatOut
      ((s.instruction? c.identity).bind fun _ => none) s (c.goOn p s now i flow) := by
    rw [Option.bind_fun_none]
    exact (c.goOn_abides s c.identity p now i flow).guides
  -- Whatever is issued, the consumer goes on from there and leaves it as it is.
  have hissues {w : Control} {f : ShardHandle → ShardHandle} {flow : Flow}
      (hf : ∀ h, (f h).control.value = w) (hw : w ≠ .run) : Guides c.identity now SatOut
        ((s.instruction? c.identity).bind fun _ => some w) s
        (c.goOn p (s.modify c.identity f) now i flow) := by
    refine (c.goOn_abides _ c.identity p now i flow).guides_after ?_
    rw [s.instruction?_modify_self, Surroundings.instruction?, Registry.instruction?]
    cases s.supervisor.shards.find? c.identity with
    | none => exact .keeps none
    | some h =>
      rw [Option.map_some, Option.map_some, hf]
      exact .obeys _ hw
  have hpause {k : Continuation} {d : Duration} (hk : k = .pauseShard d ∨ k = .pauseAllShards d) :
      Guides c.identity now SatOut
        ((s.instruction? c.identity).bind fun _ => k.instruction? now) s
        (c.act p s now i (.ok k)) := by
    have hinstruction : k.instruction? now = (now.after d).toOption.map .pause := by
      rcases hk with rfl | rfl <;> rfl
    rcases c.act_pause p s now i hk with ⟨due, hdue, hpaused⟩ | ⟨hcrashes, hcrashed⟩
    · rw [hpaused, hinstruction, hdue]
      exact hissues (fun _ => rfl) nofun
    · cases hafter : now.after d with
      | ok due => exact absurd hafter (hcrashes due)
      | error cause =>
        rw [hcrashed, hinstruction, hafter]
        exact (Option.bind_fun_none _).symm ▸ Abides.guides ⟨trivial, rfl⟩
  have hstop : Guides c.identity now SatOut
      ((s.instruction? c.identity).bind fun _ => some .stop) s
      (c.goOn p (s.modify c.identity (·.stop)) now i .exit) := hissues (fun _ => rfl) nofun
  cases outcome with
  | error e => exact hstop
  | ok k =>
    cases k with
    | skipEvent => exact hquiet
    | doNothing => exact hquiet
    | retryLater d =>
      simp only [act]
      split_ifs
      · exact hquiet
      · exact (Option.bind_fun_none _).symm ▸ Abides.guides ⟨trivial, rfl⟩
    | pauseShard d => exact hpause (.inl rfl)
    | pauseAllShards d => exact hpause (.inr rfl)
    | stopShard => exact hstop
    | stopAllShards => exact hstop

variable [EventLog L]

omit [Projection π] [EventLog L] in
/-- A consumer that calls the log keeps the instructions if it does so once it is answered. -/
theorem proceed_abides {α : Type} (i : Interrupted) (category : Category) (now : Moment)
    (f : LogCall L α) {k : α → Surroundings L → Stepped L}
    (hk : ∀ a s', s'.supervisor = s.supervisor → Abides shard s (k a s')) :
    Abides shard s (c.proceed i category (s.call now f) k) := by
  cases h : s.call now f with
  | mk outcome s' =>
    have hkept : s'.instruction? shard = s.instruction? shard := by
      rw [Surroundings.instruction?, Surroundings.supervisor_of_call h]
    cases outcome with
    | ok a => exact hk a s' (Surroundings.supervisor_of_call h)
    | error fault =>
      cases fault with
      | error e => exact ⟨trivial, hkept⟩
      | crash cause => exact ⟨trivial, hkept⟩

/-- A consumer, once its instruction is cleared of a pause that has elapsed: it says that its shard
is running, and goes into the next round. -/
def comeRound (c : Consumer) (s : Surroundings L) : Stepped L :=
  c.turn ((s.setStatus c.identity .running).announce c.identity .resumed)

omit [EventLog L] [Projection π] in
/-- A consumer that comes round keeps the instructions. -/
theorem comeRound_abides : Abides shard s (c.comeRound s) :=
  (c.turn_abides _ shard).after (s.instruction?_setStatus c.identity .running shard)

omit [EventLog L] [Projection π] in
/-- Whoever resumes clears the instruction, and then comes round. -/
theorem resume_eq (elapsed : Control) :
    c.resume s elapsed = c.comeRound (s.modify c.identity (·.resumeAfter elapsed)) := rfl

/-- What a step of a tidy and punctual consumer does to the instruction of its shard. It takes a
pause back only at the end of this pause. -/
theorem step_guides (hc : c.Tidy) (hp : c.Punctual) (now : Moment) :
    Guides c.identity now (fun due => c.stage = .pausing (.pause due) due)
      ((s.instruction? c.identity).bind fun _ => c.issues? now) s
      ((c.step p s now).1, (c.step p s now).2.2) := by
  obtain ⟨identity, stage, seenMark, seenControl, position⟩ := c
  let c : Consumer := ⟨identity, stage, seenMark, seenControl, position⟩
  -- Only the reports that are done lead to an instruction.
  have hquiet {out : Stepped L} {SatOut : Moment → Prop} (hissues : c.issues? now = none)
      (h : Abides identity s out) :
      Guides identity now SatOut ((s.instruction? identity).bind fun _ => c.issues? now) s
        out := by
    rw [hissues, Option.bind_fun_none]
    exact h.guides
  -- After a call of the log, changing the handle of the shard keeps its instruction.
  have hcalled {s' : Surroundings L} (h : s'.supervisor = s.supervisor)
      {f : ShardHandle → ShardHandle} (hf : ∀ h, (f h).control = h.control) :
      (s'.modify identity f).instruction? identity = s.instruction? identity := by
    rw [s'.instruction?_modify identity hf, Surroundings.instruction?, h]
  cases stage with
  | opening =>
    simp only [step]
    rw [c.stepAside_opening rfl]
    exact hquiet rfl (((c.begun s).turn_abides (s.begun identity) identity).after
      (Surroundings.instruction?_setStatus _ identity .running identity))
  | pausing elapsed due =>
    obtain rfl : elapsed = .pause due := hp
    simp only [step, stepAside]
    split_ifs with hshutdown hnew hdue
    · exact hquiet rfl (c.finish_abides s identity)
    · exact hquiet rfl (c.turn_abides s identity)
    · show Guides identity now _ ((s.instruction? identity).bind fun _ => none) s _
      rw [Option.bind_fun_none]
      exact (c.comeRound_abides (s.modify identity (·.resumeAfter (.pause due))) identity
        ).guides_after (s.supervisor.shards.instructs_resumeAfter identity hdue rfl)
    · exact hquiet rfl ⟨rfl, rfl⟩
  | loading =>
    refine hquiet rfl (c.proceed_abides s identity .loading _ now _ fun a s' h => ?_)
    obtain ⟨saved, updated⟩ := a
    exact (weigh_abides { c with position := some saved } _ identity saved).after
      (hcalled h (f := ({ · with position := saved })) fun _ => rfl)
  | idle => exact hquiet rfl (c.turn_abides s identity)
  | fetching committed mark =>
    refine hquiet rfl (c.proceed_abides s identity .fetching _ now _ fun a s' h => ?_)
    exact (c.advance_abides s' identity p _ now).after 
      (congrArg (·.shards.instruction? identity) h)
  | applying b due =>
    refine hquiet rfl ?_
    simp only [step]
    split
    · exact ⟨trivial, rfl⟩
    · simp only [applied]
      split
      · exact c.advance_abides s identity _ _ now
      · split_ifs <;> exact ⟨trivial, rfl⟩
      · exact ⟨trivial, rfl⟩
  | saving b cause =>
    exact hquiet rfl (c.proceed_abides s identity (.saving b cause) _ now _ fun a s' h =>
      ⟨trivial, hcalled h (f := ({ · with position := b.handled })) fun _ => rfl⟩)
  | closing b =>
    refine hquiet rfl ?_
    simp only [step, stepAside]
    split_ifs
    · exact c.commit_abides s identity now b _
    · exact c.proceed_abides s identity (.closing b) _ now _ fun a s' h =>
        (c.commit_abides _ identity now b _).after
          (hcalled h (f := ({ · with position := b.target })) fun _ => rfl)
  | failing i e =>
    refine hquiet rfl ⟨trivial, ?_⟩
    show (s.supervisor.report s.commons.metrics identity e).2.1.shards.instruction? identity = _
    exact s.supervisor.instruction?_report s.commons.metrics identity e identity
  | reporting i r =>
    cases r with
    | done outcome =>
      cases outcome with
      | error e => exact c.act_guides s p now i (.error e) _
      | ok k => exact c.act_guides s p now i (.ok k) _
    | posting k present =>
      exact hquiet rfl ⟨trivial, congrArg (Registry.instruction? · identity)
        (hc.shards_step s.supervisor s.commons.metrics now)⟩
  | backingOff i due => exact hquiet rfl (c.goOn_abides s identity p now i _)
  | ended => exact hquiet rfl ⟨trivial, rfl⟩
  | crashed => exact hquiet rfl ⟨trivial, rfl⟩

end Consumer

/-! ## The top of the loop -/

/-- What is left of a step of a consumer of a shard begins at the top of its loop, where it reads an
instruction. -/
def LooksAt (shard : String) (v : Control) (out : Consumer.Stepped L) : Prop :=
  ∃ (c : Consumer) (s : Surroundings L), c.identity = shard ∧ s.shutdown = false ∧
    (s.handle shard).control.value = v ∧ c.turn s = out

/-- The instruction that a consumer reads is still that of its shard after the step. -/
theorem LooksAt.instruction {shard : String} {v w : Control} {out : Consumer.Stepped L}
    (h : LooksAt shard v out) (hw : out.2.instruction? shard = some w) : v = w := by
  obtain ⟨c, s, -, -, rfl, rfl⟩ := h
  rw [(c.turn_abides s shard).instruction, Surroundings.instruction?, Registry.instruction?] at hw
  obtain ⟨handle, hfind, rfl⟩ := Option.map_eq_some_iff.mp hw
  rw [Surroundings.handle, hfind, Option.getD_some]

end Tidemark
