import Mathlib.Data.List.Nodup
import Mathlib.Tactic.SplitIfs
import Tidemark.Proofs.Shard.Surroundings

/-!
# Who is registered

The roster of a registry are the identities under which handles are registered, with the names of
the handles. It is made of the names that were registered first, if these have distinct identities
(`Registry.roster_ofNames`), and stays as it is whatever becomes of the handles: a command changes
their instructions (`Registry.keepsRoster_apply`), a report their failures
(`Supervisor.keepsRoster_report`), and a consumer all of its own handle but the name
(`Consumer.keepsRoster_step`).
-/

namespace Tidemark

variable {L π : Type}

namespace Registry

/-- The identities under which handles are registered, with the names of the handles. -/
def roster (r : Registry) : List (String × ShardName) := r.entries.map fun x => (x.1, x.2.name)

/-- No two handles are registered under one identity. -/
def Distinct (r : Registry) : Prop := (r.roster.map Prod.fst).Nodup

/-- Where no two handles are registered under one identity, the same names stay registered. -/
def KeepsRoster (r r' : Registry) : Prop := r.Distinct → r'.roster = r.roster

namespace KeepsRoster

variable {r r' r'' : Registry}

/-- A registry keeps its own roster. -/
theorem refl (r : Registry) : KeepsRoster r r := fun _ => rfl

/-- What is kept in two changes is kept in both together. -/
theorem trans (h : KeepsRoster r r') (h' : KeepsRoster r' r'') : KeepsRoster r r'' := fun hr => by
  have hroster := h hr
  rw [← hroster]
  exact h' (by rwa [Distinct, hroster])

end KeepsRoster

/-- Registering names whose identities are new adds them at the end of the roster. -/
theorem roster_foldl_register {names : List ShardName} {r : Registry}
    (h : (r.roster.map Prod.fst ++ names.map ShardName.identity).Nodup) :
    (names.foldl register r).roster = r.roster ++ names.map fun name => (name.identity, name) := by
  induction names generalizing r with
  | nil => simp
  | cons name names ih =>
    have hnew : ∀ x ∈ r.entries, x.1 ≠ name.identity := fun x hx heq => by
      have hkey : x.1 ∈ r.roster.map Prod.fst :=
        List.mem_map.mpr ⟨(x.1, x.2.name), List.mem_map_of_mem hx, rfl⟩
      exact (List.nodup_append.mp h).2.2 x.1 hkey name.identity (by simp) heq
    have hroster : (r.register name).roster = r.roster ++ [(name.identity, name)] := by
      unfold register roster
      rw [List.filter_eq_self.mpr fun x hx => by simpa using hnew x hx, List.map_append]
      rfl
    rw [List.foldl_cons, ih, hroster]
    · simp
    · rw [hroster]
      simpa using h

/-- Names with distinct identities are all registered. -/
theorem roster_ofNames {names : List ShardName} (h : (names.map ShardName.identity).Nodup) :
    (ofNames names).roster = names.map fun name => (name.identity, name) :=
  roster_foldl_register (r := {}) h

/-- Where no two handles are registered under one identity, each of them is found under its own. -/
theorem Distinct.find?_of_mem {r : Registry} (hr : r.Distinct) {i : String} {h : ShardHandle}
    (hmem : (i, h) ∈ r.entries) : r.find? i = some h := by
  obtain ⟨before, after, hentries⟩ := List.append_of_mem hmem
  refine List.lookup_eq_some_iff.mpr ⟨before, after, hentries, fun x hx => ?_⟩
  have hkeys : (r.entries.map Prod.fst).Nodup := by
    simpa [Distinct, roster, Function.comp_def] using hr
  rw [hentries, List.map_append, List.map_cons, List.nodup_append] at hkeys
  have hne := hkeys.2.2 x.1 (List.mem_map_of_mem hx) i List.mem_cons_self
  simpa using Ne.symm hne

/-- Changing a handle in a way that keeps its name. -/
theorem keepsRoster_modify (r : Registry) (i : String) {f : ShardHandle → ShardHandle}
    (hf : ∀ h, r.find? i = some h → (f h).name = h.name) : KeepsRoster r (r.modify i f) := by
  intro hr
  unfold roster modify
  rw [List.map_map]
  refine List.map_congr_left fun x hx => ?_
  obtain ⟨j, h⟩ := x
  by_cases hj : j = i
  · subst hj
    simp [hf h (hr.find?_of_mem hx)]
  · simp [hj]

/-- Giving a command to every shard. -/
theorem keepsRoster_apply {r r' : Registry} {now : Moment} {command : Command}
    (h : r.apply now command = .ok r') : KeepsRoster r r' := by
  intro _
  obtain ⟨entries', hentries, hr⟩ := bind_eq_ok.mp h
  obtain rfl := Except.ok.inj hr
  have hall := mapM_eq_ok.mp hentries
  clear h hr hentries
  unfold roster
  generalize r.entries = entries at hall ⊢
  dsimp only
  induction hall with
  | nil => rfl
  | @cons entry entry' rest rest' hentry hrest ih =>
    obtain ⟨new, hobey, hnew⟩ := bind_eq_ok.mp hentry
    obtain rfl := Except.ok.inj hnew
    rw [List.map_cons, List.map_cons, ih, name_of_obey hobey]

end Registry

/-! ## Reports and commands -/

/-- A report that begins. -/
theorem Supervisor.keepsRoster_report (s : Supervisor) (m : Metrics) (shard : String)
    (e : Failure) : s.shards.KeepsRoster (s.report m shard e).2.1.shards := by
  unfold report resolve?
  cases hfind : s.shards.find? shard with
  | none => exact .refl _
  | some h =>
    -- The handle that is put in place is the one that is there, with other failures.
    have hkeeps {h' : ShardHandle} (hname : h'.name = h.name) :
        s.shards.KeepsRoster (s.shards.modify shard fun _ => h') :=
      s.shards.keepsRoster_modify shard fun old hold => by
        obtain rfl := Option.some.inj (hfind.symm.trans hold)
        exact hname
    simp only [Option.map_some]
    split <;> exact hkeeps (by split_ifs <;> rfl)

/-- A command that is carried out. -/
theorem Supervisor.keepsRoster_obeyed (command : Command) (now : Moment) (r : Registry) :
    r.KeepsRoster (obeyed command now r) := by
  rcases obeyed_cases command now r with heq | happly
  · rw [heq]
    exact .refl r
  · exact Registry.keepsRoster_apply happly

/-- A report that is carried on. -/
theorem Reporting.keepsRoster_step (r : Reporting) (s : Supervisor) (m : Metrics) (now : Moment) :
    s.shards.KeepsRoster (r.step s m now).2.1.shards := by
  rw [Reporting.shards_step]
  split
  · exact Supervisor.keepsRoster_obeyed _ now s.shards
  · exact .refl _

/-! ## Consumers -/

namespace Consumer

/-- The same names stay registered in a part of a step. -/
def KeepsRoster (s : Surroundings L) (out : Stepped L) : Prop :=
  s.supervisor.shards.KeepsRoster out.2.supervisor.shards

/-- A part of a step that comes after a change that keeps the roster. -/
theorem KeepsRoster.after {s s' : Surroundings L} {out : Stepped L} (h : KeepsRoster s' out)
    (hs : s.supervisor.shards.KeepsRoster s'.supervisor.shards) : KeepsRoster s out :=
  hs.trans h

/-- Changing anything of a handle but its name. -/
theorem keepsRoster_modify (s : Surroundings L) (i : String) (f : ShardHandle → ShardHandle)
    (hf : ∀ h, (f h).name = h.name) :
    s.supervisor.shards.KeepsRoster (s.modify i f).supervisor.shards :=
  s.supervisor.shards.keepsRoster_modify i fun h _ => hf h

variable (c : Consumer) (s : Surroundings L)

/-- A consumer that ends keeps the roster. -/
theorem keepsRoster_finish : KeepsRoster s (c.finish s) :=
  keepsRoster_modify s c.identity ({ · with status := .stopped }) fun _ => rfl

/-- A consumer at the top of its loop keeps the roster. -/
theorem keepsRoster_turn : KeepsRoster s (c.turn s) := by
  unfold turn
  split_ifs
  · exact c.keepsRoster_finish s
  · dsimp only
    split
    · exact keepsRoster_finish _ s
    · exact keepsRoster_modify s c.identity ({ · with status := .paused }) fun _ => rfl
    · split <;> exact .refl _

/-- A consumer that goes back from a batch keeps the roster. -/
theorem keepsRoster_restart (saved : Position) (flow : Flow) :
    KeepsRoster s (c.restart s saved flow) := by
  cases flow with
  | exit => exact keepsRoster_finish _ s
  | next | refetch => exact keepsRoster_turn _ s

/-- A consumer that is done with a batch keeps the roster. -/
theorem keepsRoster_commit (now : Moment) (b : Batch) (saved : Position) :
    KeepsRoster s (c.commit s now b saved) := by
  have hreset := keepsRoster_modify s c.identity (·.resetAttempts) fun _ => rfl
  obtain ⟨f, hf⟩ := c.commit_eq s now b saved
  rw [hf]
  dsimp only
  split_ifs
  · exact (keepsRoster_turn _ _).after hreset
  · exact hreset

/-- A consumer that calls the log keeps the roster if it does so once it is answered. -/
theorem keepsRoster_proceed {α : Type} (i : Interrupted) (category : Category) (now : Moment)
    (f : LogCall L α) {k : α → Surroundings L → Stepped L} (hk : ∀ a s', KeepsRoster s' (k a s')) :
    KeepsRoster s (c.proceed i category (s.call now f) k) := by
  cases h : s.call now f with
  | mk outcome s' =>
    have hcalled : s.supervisor.shards.KeepsRoster s'.supervisor.shards := by
      rw [s.supervisor_of_call h]
      exact .refl _
    cases outcome with
    | ok a => exact (hk a s').after hcalled
    | error fault => cases fault <;> exact hcalled

variable [Projection π] (p : π)

/-- A consumer that goes on after a failure keeps the roster. -/
theorem keepsRoster_goOn (now : Moment) (i : Interrupted) (flow : Flow) :
    KeepsRoster s (c.goOn p s now i flow) := by
  cases i with
  | loading | fetching =>
    simp only [goOn]
    split_ifs
    · exact c.keepsRoster_finish s
    · exact c.keepsRoster_turn s
  | saving b cause =>
    simp only [goOn]
    split_ifs
    · exact .refl _
    · exact c.keepsRoster_restart s _ flow
  | applying b saved =>
    simp only [goOn]
    split_ifs
    · split <;> exact .refl _
    · exact c.keepsRoster_restart s _ flow
  | closing b => exact c.keepsRoster_restart s _ flow

/-- A consumer that carries out the answer to a failure keeps the roster. -/
theorem keepsRoster_act (now : Moment) (i : Interrupted) (outcome : Except Error Continuation) :
    KeepsRoster s (c.act p s now i outcome) := by
  have hpause {k : Continuation} {d : Duration} (hk : k = .pauseShard d ∨ k = .pauseAllShards d) :
      KeepsRoster s (c.act p s now i (.ok k)) := by
    rcases c.act_pause p s now i hk with ⟨due, -, hpaused⟩ | ⟨-, hcrashed⟩
    · -- The handle that is put in place is the one that is there, with another instruction.
      rw [hpaused]
      refine (c.keepsRoster_goOn _ p now i _).after
        (s.supervisor.shards.keepsRoster_modify c.identity fun h hfind => ?_)
      simp [Surroundings.handle, hfind]
    · rw [hcrashed]
      exact .refl _
  have hstop : KeepsRoster s (c.goOn p (s.modify c.identity (·.stop)) now i .exit) :=
    (c.keepsRoster_goOn _ p now i .exit).after
      (keepsRoster_modify s c.identity (·.stop) fun _ => rfl)
  cases outcome with
  | error e => exact hstop
  | ok k =>
    cases k with
    | skipEvent | doNothing => exact c.keepsRoster_goOn s p now i .next
    | retryLater d =>
      simp only [act]
      split_ifs
      · exact c.keepsRoster_goOn s p now i .exit
      · exact .refl _
    | pauseShard d => exact hpause (.inl rfl)
    | pauseAllShards d => exact hpause (.inr rfl)
    | stopShard | stopAllShards => exact hstop

/-- A step of a consumer. -/
theorem keepsRoster_step [EventLog L] (now : Moment) :
    KeepsRoster s ((c.step p s now).1, (c.step p s now).2.2) := by
  obtain ⟨identity, stage, seenMark, seenControl, position⟩ := c
  let c : Consumer := ⟨identity, stage, seenMark, seenControl, position⟩
  cases stage with
  | opening =>
    simp only [step]
    rw [c.stepAside_opening rfl]
    exact (keepsRoster_turn (c.begun s) (s.begun identity)).after
      (keepsRoster_modify s identity ({ · with status := .running }) fun _ => rfl)
  | pausing elapsed due =>
    simp only [step, stepAside]
    split_ifs
    · exact c.keepsRoster_finish s
    · exact c.keepsRoster_turn s
    · let resumed := s.modify identity (·.resumeAfter elapsed)
      have hresumed : s.supervisor.shards.KeepsRoster resumed.supervisor.shards :=
        keepsRoster_modify s identity (·.resumeAfter elapsed) fun h => by
          unfold ShardHandle.resumeAfter
          split_ifs <;> rfl
      exact (c.keepsRoster_turn _).after (hresumed.trans
        (keepsRoster_modify resumed identity ({ · with status := .running }) fun _ => rfl))
    · exact .refl _
  | loading =>
    exact c.keepsRoster_proceed s .loading _ now _ fun a s' =>
      keepsRoster_modify s' identity ({ · with position := a.1 }) fun _ => rfl
  | idle => exact c.keepsRoster_turn s
  | fetching committed mark =>
    exact c.keepsRoster_proceed s .fetching _ now _ fun _ _ => .refl _
  | applying b due =>
    simp only [step]
    split
    · exact .refl _
    · simp only [applied]
      split
      · exact .refl _
      · split_ifs <;> exact .refl _
      · exact .refl _
  | saving b cause =>
    exact c.keepsRoster_proceed s (.saving b cause) _ now _ fun _ s' =>
      keepsRoster_modify s' identity ({ · with position := b.handled }) fun _ => rfl
  | closing b =>
    simp only [step, stepAside]
    split_ifs
    · exact c.keepsRoster_commit s now b _
    · exact c.keepsRoster_proceed s (.closing b) _ now _ fun _ s' =>
        (c.keepsRoster_commit _ now b _).after
          (keepsRoster_modify s' identity ({ · with position := b.target }) fun _ => rfl)
  | failing i e => exact s.supervisor.keepsRoster_report s.commons.metrics identity e
  | reporting i r =>
    cases r with
    | done outcome => exact c.keepsRoster_act s p now i outcome
    | posting k present =>
      exact Reporting.keepsRoster_step (.posting k present) s.supervisor s.commons.metrics now
  | backingOff i due => exact c.keepsRoster_goOn s p now i _
  | ended | crashed => exact .refl _

end Consumer

end Tidemark
