import Mathlib.Logic.Relation
import Tidemark.Proofs.Daemon.Marks
import Tidemark.Log.Memory
import Tidemark.Proofs.Shard.Name
import Tidemark.Rehearsal.Projection

/-!
# Registered shards

A daemon compares the names of the shards that are registered with it, and refuses a name that it
has. Handles and progress go by the identities of shards, however, which two names may share. So
every shard of a daemon that was started has a handle and a row of its own exactly if no name
registered puts together at a later colon what another one does (`Daemon.separate_iff`).
-/

namespace Tidemark

namespace Daemon

variable {L π : Type} [Projection π]

/-! ## Registration -/

/-- The names of the shards that are registered. -/
def names (d : Daemon L π) : List ShardName := d.projections.map Projection.shardName

/-- A daemon after someone has asked to add a projection. -/
def offer (d : Daemon L π) (p : π) : Daemon L π :=
  match d.addProjection p with
  | .ok d' => d'
  | .error _ => d

/-- A daemon after someone has asked to add projections, one after the other. -/
def offerAll (d : Daemon L π) (ps : List π) : Daemon L π := ps.foldl offer d

/-- A projection that is added comes after those that are there, under a name that is new and not
the one of the high water mark. -/
theorem addProjection_eq_ok {d d' : Daemon L π} {p : π} (h : d.addProjection p = .ok d') :
    (Projection.shardName p).isHighWater = false ∧ Projection.shardName p ∉ d.names ∧
      d' = { d with projections := d.projections ++ [p] } := by
  obtain ⟨-, -, h⟩ := bind_eq_ok.mp h
  dsimp only at h
  split_ifs at h with hmark hnew
  refine ⟨by simpa using hmark, fun hmem => hnew ?_, (Except.ok.inj h).symm⟩
  obtain ⟨q, hq, hname⟩ := List.mem_map.mp hmem
  exact List.any_eq_true.mpr ⟨q, hq, by simp [hname]⟩

/-- Whoever asks to add a projection leaves the names that are registered distinct. -/
theorem offer_nodup {d : Daemon L π} (h : d.names.Nodup) (p : π) : (d.offer p).names.Nodup := by
  unfold offer
  split
  · next d' hadd =>
    obtain ⟨-, hnew, rfl⟩ := addProjection_eq_ok hadd
    have hnames : names { d with projections := d.projections ++ [p] } =
        d.names ++ [Projection.shardName p] := by simp [names]
    rw [hnames, List.nodup_append]
    refine ⟨h, List.nodup_singleton _, fun a ha b hb hab => hnew ?_⟩
    rwa [← List.mem_singleton.mp hb, ← hab]
  · exact h

/-- Whoever asks to add projections leaves the names that are registered distinct. -/
theorem offerAll_nodup {d : Daemon L π} (h : d.names.Nodup) (ps : List π) :
    (d.offerAll ps).names.Nodup := by
  induction ps generalizing d with
  | nil => exact h
  | cons p ps ih => exact ih (offer_nodup h p)

/-! ## The start -/

variable [EventLog L]

/-- What can happen at once while a daemon is being started. -/
inductive Boots : DaemonCall × Daemon L π → DaemonCall × Daemon L π → Prop where
  /-- The call takes a step. -/
  | calls {call : DaemonCall} {d : Daemon L π} (now : Moment) :
    Boots (call, d) (call.step d now)
  /-- The agent takes a step. -/
  | works {call : DaemonCall} {d : Daemon L π} (now : Moment) (task : AgentTask) :
    Boots (call, d) (call, d.step now (.agent task))
  /-- Something happens elsewhere: what the tasks share is changed. -/
  | elsewhere {call : DaemonCall} {d : Daemon L π} (c : Commons L) :
    Boots (call, d) (call, { d with commons := c })

/-- The shards are registered under names, and their consumers have been set off. -/
structure Equipped (names : List ShardName) (d : Daemon L π) : Prop where
  registry : ∃ s, d.supervisor = some s ∧ s.shards = .ofNames names
  consumers : d.consumers.map (·.identity) = names.map ShardName.identity

/-- How far the start of a daemon has come whose shards are registered under names. -/
def Booting (names : List ShardName) (x : DaemonCall × Daemon L π) : Prop :=
  x.2.names = names ∧
    match x.1 with
    | .starting _ | .started (.error _) => True
    | .started (.ok _) => x.2.Equipped names
    | _ => False

omit [EventLog L] in
/-- The start of a daemon has come as far after a change that concerns neither the projections nor
their consumers and handles. -/
theorem Booting.of_same {names : List ShardName} {call : DaemonCall} {d d' : Daemon L π}
    (h : Booting names (call, d)) (hprojections : d'.projections = d.projections)
    (hsupervisor : d'.supervisor = d.supervisor) (hconsumers : d'.consumers = d.consumers) :
    Booting names (call, d') := by
  obtain ⟨hnames, hcall⟩ := h
  refine ⟨(congrArg (List.map Projection.shardName) hprojections).trans hnames, ?_⟩
  cases call with
  | starting a => trivial
  | started outcome =>
    cases outcome with
    | ok found =>
      have hequipped : d.Equipped names := hcall
      exact ⟨hsupervisor ▸ hequipped.registry, hconsumers ▸ hequipped.consumers⟩
    | error fault => trivial
  | _ => exact hcall

omit [EventLog L] in
/-- A daemon is launched with the shards that are registered, or it cannot be. -/
theorem launch_booting (d : Daemon L π) (found : Statistics) :
    Booting d.names (DaemonCall.started (d.launch found).1, (d.launch found).2) := by
  unfold launch
  dsimp only
  split
  · exact ⟨rfl, trivial⟩
  · next s hs =>
    obtain ⟨commands, -, hs⟩ := bind_eq_ok.mp hs
    obtain rfl := Except.ok.inj hs
    refine ⟨rfl, ⟨_, rfl, rfl⟩, ?_⟩
    show List.map _ (List.map _ _) = _
    rw [List.map_map]
    rfl

/-- The start of a daemon goes on with the names that are registered. -/
theorem Boots.booting {names : List ShardName} {x y : DaemonCall × Daemon L π} (h : Boots x y)
    (hx : Booting names x) : Booting names y := by
  cases h with
  | works now task => exact hx.of_same rfl rfl rfl
  | elsewhere c => exact hx.of_same rfl rfl rfl
  | @calls call d now =>
    obtain ⟨hnames, hcall⟩ := hx
    cases call with
    | starting a =>
      cases a with
      | started outcome =>
        -- The agent has been started, or could not be.
        match outcome with
        | .ok found => exact hnames ▸ d.launch_booting found
        | .error (.error e) => exact ⟨hnames, trivial⟩
        | .error (.crash cause) => exact ⟨hnames, trivial⟩
      | _ => exact ⟨hnames, trivial⟩
    | started outcome => exact ⟨hnames, hcall⟩
    | _ => exact hcall.elim

/-- The start of a daemon goes on with the names that are registered, whatever happens. -/
theorem Booting.of_run {names : List ShardName} {x y : DaemonCall × Daemon L π}
    (hx : Booting names x) (h : Relation.ReflTransGen Boots x y) : Booting names y := by
  induction h with
  | refl => exact hx
  | tail _ hstep ih => exact hstep.booting ih

/-- Someone begins to start a daemon. -/
theorem start_booting (d : Daemon L π) (now : Moment) : Booting d.names (d.start now) := by
  unfold start
  split
  · exact ⟨rfl, trivial⟩
  · exact ⟨rfl, trivial⟩

/-! ## Handles and rows -/

omit [EventLog L] in
/-- Every shard of a daemon has a handle and a row of its own. -/
structure Separate (d : Daemon L π) : Prop where
  /-- The consumer of a projection finds the handle of its shard. -/
  handles : ∀ (k : ℕ) (p : π), d.projections[k]? = some p →
    ∃ s c h, d.supervisor = some s ∧ d.consumers[k]? = some c ∧
      s.shards.find? c.identity = some h ∧ h.name = Projection.shardName p
  /-- No two consumers record their progress in the same row. -/
  rows : ∀ s, d.supervisor = some s →
    (d.consumers.map fun c => (d.surroundings s).rowName c.identity).Nodup

omit [EventLog L] in
/-- The shards of a daemon that has been started have handles and rows of their own exactly if their
identities are distinct. -/
theorem Equipped.separate_iff_nodup {d : Daemon L π} (h : d.Equipped d.names)
    (hnodup : d.names.Nodup) :
    d.Separate ↔ (d.names.map ShardName.identity).Nodup := by
  obtain ⟨⟨s, hs, hshards⟩, hconsumers⟩ := h
  -- A consumer records its progress under its identity.
  have hnamed : s.shards.Named := hshards ▸ Registry.named_ofNames d.names
  have hrows : (d.consumers.map fun c => (d.surroundings s).rowName c.identity) =
      d.names.map ShardName.identity := by
    rw [← hconsumers]
    exact List.map_congr_left fun c _ => hnamed c.identity
  constructor
  · intro hseparate
    rw [← hrows]
    exact hseparate.rows s hs
  · intro hidentities
    refine ⟨fun k p hp => ?_, fun s' hs' => ?_⟩
    · have hname : d.names[k]? = some (Projection.shardName p) := by
        rw [names, List.getElem?_map, hp]
        rfl
      have hidentity : (d.consumers.map (·.identity))[k]? =
          some (Projection.shardName p).identity := by
        rw [hconsumers, List.getElem?_map, hname]
        rfl
      obtain ⟨c, hc, hcidentity⟩ := Option.map_eq_some_iff.mp (List.getElem?_map ▸ hidentity)
      have hown := Registry.own_iff.mpr ((List.nodup_map_iff_inj_on hnodup).mp hidentities) _
        (List.mem_of_getElem? hname)
      exact ⟨s, c, _, hs, hc, by rw [hcidentity, hshards]; exact hown, rfl⟩
    · obtain rfl : s = s' := Option.some.inj (hs.symm.trans hs')
      rw [hrows]
      exact hidentities

/-- Ask a new daemon to add projections. The names of those that it accepts are distinct, and their
identities are distinct exactly if none of the names puts together at a later colon what another one
does. Whenever the daemon is then started, this is when every shard has a handle and a row of its
own. -/
theorem separate_iff {config : Config.Daemon} {log : L} {origin : Timestamp} {ps : List π}
    {d : Daemon L π} (hadded : d = (new config log origin : Daemon L π).offerAll ps) :
    d.names.Nodup ∧
      ((d.names.map ShardName.identity).Nodup ↔ ∀ a ∈ d.names, ∀ b ∈ d.names, ¬ a.Regroups b) ∧
        ∀ now found d', Relation.ReflTransGen Boots (d.start now) (.started (.ok found), d') →
          (d'.Separate ↔ ∀ a ∈ d.names, ∀ b ∈ d.names, ¬ a.Regroups b) := by
  have hnew : (new config log origin : Daemon L π).names.Nodup := List.nodup_nil
  have hnodup : d.names.Nodup := hadded ▸ offerAll_nodup hnew ps
  have hidentities := ShardName.identities_nodup_iff hnodup
  refine ⟨hnodup, hidentities, fun now found d' hrun => ?_⟩
  have hbooting : Booting d.names (DaemonCall.started (.ok found), d') :=
    (d.start_booting now).of_run hrun
  obtain ⟨hnames, hequipped⟩ := hbooting
  rw [← hidentities, ← hnames]
  exact Equipped.separate_iff_nodup (hnames.symm ▸ hequipped) (hnames.symm ▸ hnodup)

/-! ## Rehearsals -/

omit [EventLog L] [Projection π] in
/-- A projection that consumes as a shard. -/
def consuming (shard : ShardName) : Rehearsal.ScriptedProjection :=
  { name := shard.projection, shard := some shard }

/-- A daemon over an empty log, after someone has asked to add a projection for each of the names.
-/
def rehearsed (names : List ShardName) : Daemon MemoryLog Rehearsal.ScriptedProjection :=
  (new {} {} ⟨0, false⟩).offerAll (names.map consuming)

/-- The start of a daemon after steps of the call, all of them at the beginning of the clock. -/
def callOn : ℕ → DaemonCall × Daemon L π → DaemonCall × Daemon L π
  | 0, x => x
  | n + 1, (call, d) => callOn n (call.step d 0)

/-- Steps of the call are steps of the start. -/
theorem boots_callOn (n : ℕ) (x : DaemonCall × Daemon L π) :
    Relation.ReflTransGen Boots x (callOn n x) := by
  induction n generalizing x with
  | zero => exact .refl
  | succ n ih => exact .head (.calls 0) (ih _)

/-- A rehearsal in which two steps of the call start the daemon. -/
theorem boots_rehearsed (names : List ShardName)
    (h : (callOn 2 ((rehearsed names).start 0)).1 = .started (.ok (.empty ⟨0, false⟩))) :
    Relation.ReflTransGen Boots ((rehearsed names).start 0)
      (.started (.ok (.empty ⟨0, false⟩)), (callOn 2 ((rehearsed names).start 0)).2) := by
  rw [← h]
  exact boots_callOn 2 _

/-- Two partitions of one projection have handles and rows of their own. -/
theorem separate_of_partitions :
    ∃ found, ∃ d' : Daemon MemoryLog Rehearsal.ScriptedProjection,
      Relation.ReflTransGen Boots ((rehearsed [⟨"T", "1"⟩, ⟨"T", "2"⟩]).start 0)
        (.started (.ok found), d') ∧ d'.consumers.length = 2 ∧ d'.Separate := by
  have hrun := boots_rehearsed [⟨"T", "1"⟩, ⟨"T", "2"⟩] rfl
  obtain ⟨-, -, hseparate⟩ :=
    separate_iff (d := rehearsed [⟨"T", "1"⟩, ⟨"T", "2"⟩]) rfl
  refine ⟨_, _, hrun, rfl, (hseparate _ _ _ hrun).mpr fun a ha b _ hregroups => ?_⟩
  -- No colon is part of the projection.
  have ha : a ∈ [⟨"T", "1"⟩, ⟨"T", "2"⟩] := ha
  have hprojection : a.projection = "T" := by
    rcases List.mem_pair.mp ha with rfl | rfl <;> rfl
  have hcolon := hregroups.colon_mem
  rw [hprojection] at hcolon
  exact absurd hcolon (by decide)

/-- A projection `a:b` with the key `c` and a projection `a` with the key `b:c` are both accepted.
They have the same identity, and only the second one has a handle. -/
theorem exists_shared_identity :
    (rehearsed [⟨"a:b", "c"⟩, ⟨"a", "b:c"⟩]).names = [⟨"a:b", "c"⟩, ⟨"a", "b:c"⟩] ∧
      ¬ ((rehearsed [⟨"a:b", "c"⟩, ⟨"a", "b:c"⟩]).names.map ShardName.identity).Nodup ∧
        ∃ found, ∃ d' : Daemon MemoryLog Rehearsal.ScriptedProjection,
          Relation.ReflTransGen Boots ((rehearsed [⟨"a:b", "c"⟩, ⟨"a", "b:c"⟩]).start 0)
            (.started (.ok found), d') ∧ ¬ d'.Separate := by
  have hrun := boots_rehearsed [⟨"a:b", "c"⟩, ⟨"a", "b:c"⟩] rfl
  refine ⟨rfl, by decide +kernel, _, _, hrun, fun hseparate => ?_⟩
  -- The handle that the first consumer finds has the name of the second shard.
  obtain ⟨s, c, h, hs, hc, hfind, hname⟩ :=
    hseparate.handles 0 (consuming ⟨"a:b", "c"⟩) rfl
  obtain rfl := Option.some.inj hs
  obtain rfl := Option.some.inj hc
  obtain rfl := Option.some.inj hfind
  exact absurd hname (by decide)

end Daemon

end Tidemark
