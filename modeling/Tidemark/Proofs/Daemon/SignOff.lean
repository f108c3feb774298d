import Tidemark.Proofs.Daemon.Registration
import Tidemark.Proofs.Daemon.Stop
import Tidemark.Proofs.Shard.Ending

/-!
# Shards that have ended are reported

A consumer that ends sets the status of its shard to `stopped`, announces that, and from then on
every check of the health counts the shard. The exception are consumers that crash. Where the calls
of the log return and the projections do not crash, the only reason is a number that cannot be
represented: the end of a pause that someone has configured, or the distance of the progress of a
shard to the mark.

Main statements:

* `Course.ended_reported`: on every course, a shard signs off at the end of a consumer exactly if no
  such number comes up; and a shard without consumers that go on is reported as stopped exactly if
  none has come up.
* `Course.exists_unreported`: a pause of the longest whole number of seconds crashes its consumer,
  and the shard counts as running from then on.

Before that, the effect of every move on the face of a shard (`Moved.passes_or_worked`) is carried
along courses: what the shard says of itself (`Course.status_of_contained`,
`Course.status_of_sole`), and what becomes of its consumer (`Course.crashed_of_overruns`).
-/

namespace Tidemark

variable {L π : Type}

/-! ## Health checks -/

/-- Whatever is related to the elements of a list one by one is related to each of them. -/
theorem exists_of_forall₂ {α β : Type} {R : α → β → Prop} {as : List α} {bs : List β}
    (h : List.Forall₂ R as bs) {a : α} (ha : a ∈ as) : ∃ b ∈ bs, R a b := by
  induction h with
  | nil => cases ha
  | @cons a' b as bs hab _ ih =>
    rcases List.mem_cons.mp ha with rfl | ha
    · exact ⟨b, List.mem_cons_self, hab⟩
    · obtain ⟨b', hb', hR⟩ := ih ha
      exact ⟨b', List.mem_cons_of_mem b hb', hR⟩

namespace Daemon

/-- A shard whose handle says so is reported as stopped: its status is, a check of the health of the
daemon counts it among the shards that have stopped, and the daemon is not healthy. -/
structure ReportsStopped (d : Daemon L π) (shard : String) : Prop where
  status : d.HasStatus shard .stopped
  listed : ∀ check, d.health = .ok check → ∃ h ∈ check.shards, h.shard = shard ∧ h.status = .stopped
  counted : ∀ check, d.health = .ok check →
    check.shardsStopped = check.shards.countP (·.status == .stopped) ∧ 0 < check.shardsStopped
  unhealthy : ∀ check, d.health = .ok check → check.healthy = false

/-- The health of a shard can be told exactly if its distance to the mark can be represented. -/
theorem shardHealth_eq (mark : Position) (h : ShardHandle) :
    shardHealth mark h =
      if (mark - h.position).Fits then
        .ok ⟨h.name.identity, h.status, h.position, max 0 (mark - h.position), h.attempts⟩
      else .error .subtractOverflow := by
  unfold shardHealth Position.lead Position.distance
  split_ifs <;> rfl

/-- What a check of the health consists of. -/
theorem health_eq_ok {d : Daemon L π} {r : Registry} (hr : d.handles = some r)
    {check : HealthCheck} (h : d.health = .ok check) :
    List.Forall₂ (fun h sh => shardHealth d.highWaterMark h = .ok sh) r.handles check.shards ∧
      check.shardsStopped = check.shards.countP (·.status == .stopped) ∧
      check.healthy = (check.ready && check.shardsStopped == 0) := by
  obtain ⟨s, hs, rfl⟩ := Option.map_eq_some_iff.mp hr
  obtain ⟨shards, hshards, h⟩ := bind_eq_ok.mp h
  rw [hs] at hshards
  obtain rfl := Except.ok.inj h
  exact ⟨mapM_eq_ok.mp hshards, rfl, rfl⟩

/-- A check is answered exactly if the distances of all shards to the mark can be represented. -/
theorem health_isOk_iff {d : Daemon L π} {r : Registry} (hr : d.handles = some r) :
    (∃ check, d.health = .ok check) ↔ ∀ h ∈ r.handles, (d.highWaterMark - h.position).Fits := by
  constructor
  · rintro ⟨check, hcheck⟩ h hmem
    obtain ⟨sh, -, hsh⟩ := exists_of_forall₂ (health_eq_ok hr hcheck).1 hmem
    rw [shardHealth_eq] at hsh
    by_contra hfits
    rw [if_neg hfits] at hsh
    cases hsh
  · intro hfits
    obtain ⟨s, hs, rfl⟩ := Option.map_eq_some_iff.mp hr
    have hshards : ∃ shards, s.shards.handles.mapM (shardHealth d.highWaterMark) = .ok shards := by
      refine ⟨s.shards.handles.map fun h => ⟨h.name.identity, h.status, h.position,
        max 0 (d.highWaterMark - h.position), h.attempts⟩, mapM_eq_ok.mpr ?_⟩
      rw [List.forall₂_map_right_iff, List.forall₂_same]
      exact fun h hmem => (shardHealth_eq _ h).trans (if_pos (hfits h hmem))
    obtain ⟨shards, hshards⟩ := hshards
    refine ⟨_, bind_eq_ok.mpr ⟨shards, ?_, rfl⟩⟩
    rw [hs]
    exact hshards

/-- A shard whose status is that it has stopped is reported as stopped. -/
theorem reportsStopped {d : Daemon L π} {shard : String}
    (h : d.Reads shard fun h => h.status = .stopped ∧ h.name.identity = shard) :
    d.ReportsStopped shard := by
  obtain ⟨r, hr, handle, hfind, hstopped, hname⟩ := id h
  have hmem : handle ∈ r.handles := by
    obtain ⟨before, after, hentries, -⟩ := List.lookup_eq_some_iff.mp hfind
    simp [Registry.handles, hentries]
  have hlisted (check : HealthCheck) (hcheck : d.health = .ok check) :
      ∃ sh ∈ check.shards, sh.shard = shard ∧ sh.status = .stopped := by
    obtain ⟨sh, hsh, heq⟩ := exists_of_forall₂ (health_eq_ok hr hcheck).1 hmem
    rw [shardHealth_eq] at heq
    split_ifs at heq
    obtain rfl := Except.ok.inj heq
    exact ⟨_, hsh, hname, hstopped⟩
  have hcounted (check : HealthCheck) (hcheck : d.health = .ok check) :
      0 < check.shardsStopped := by
    obtain ⟨sh, hsh, -, hstatus⟩ := hlisted check hcheck
    rw [(health_eq_ok hr hcheck).2.1]
    exact List.countP_pos_iff.mpr ⟨sh, hsh, by simp [hstatus]⟩
  refine ⟨h.imp fun _ h => h.1, hlisted,
    fun check hcheck => ⟨(health_eq_ok hr hcheck).2.1, hcounted check hcheck⟩,
    fun check hcheck => ?_⟩
  rw [(health_eq_ok hr hcheck).2.2]
  simp [(hcounted check hcheck).ne']

end Daemon

/-! ## Single moves -/

variable [EventLog L] [Projection π]

/-- A move comes to a number that cannot be represented: it is the step of a consumer of the shard
that does. -/
def DaemonMove.Overruns (shard : String) (d : Daemon L π) : DaemonMove → Prop
  | .task now (.consumer k) => ∃ s c, d.supervisor = some s ∧ d.consumers[k]? = some c ∧
      c.identity = shard ∧ c.Overruns (d.surroundings s) now
  | _ => False

/-- A move is the step of a consumer that is not over. -/
structure Worked (d : Daemon L π) (now : Moment) (k : ℕ) (s : Supervisor) (c : Consumer) (p : π)
    (d' : Daemon L π) : Prop where
  before : d.supervisor = some s
  consumer : d.consumers[k]? = some c
  projection : d.projections[k]? = some p
  going : c.isOver = false
  handles : d'.handles = some (c.step p (d.surroundings s) now).2.2.supervisor.shards
  consumers : d'.consumers = d.consumers.set k (c.step p (d.surroundings s) now).1
  tracker : d'.commons.tracker = (c.step p (d.surroundings s) now).2.2.commons.tracker

/-- A move leaves a shard alone: its name and its status stay, and so do its consumers. -/
structure Passes (shard : String) (d d' : Daemon L π) : Prop where
  face : ∀ r, d.handles = some r → ∃ r', d'.handles = some r' ∧ r.SameFace shard r'
  consumers : ∀ (k : ℕ) (c : Consumer), c.identity = shard →
    (d'.consumers[k]? = some c ↔ d.consumers[k]? = some c)

/-- A consumer that is over does nothing to its surroundings. -/
theorem Consumer.surroundings_of_isOver (c : Consumer) (p : π) (s : Surroundings L) (now : Moment)
    (hover : c.isOver = true) : (c.step p s now).2.2 = s := by
  obtain ⟨identity, stage, seenMark, seenControl, position⟩ := c
  cases stage with
  | ended => rfl
  | crashed => rfl
  | _ => cases hover

/-- A consumer that is not over works if it is its turn. -/
theorem Daemon.worked (d : Daemon L π) {k : ℕ} {s : Supervisor} {c : Consumer} {p : π}
    (hs : d.supervisor = some s) (hc : d.consumers[k]? = some c) (hp : d.projections[k]? = some p)
    (hgoing : c.isOver = false) (now : Moment) :
    Worked d now k s c p (d.perform (.task now (.consumer k))) := by
  have hnext : d.perform (.task now (.consumer k)) = d.stepConsumer now k := rfl
  simp only [Daemon.stepConsumer, hs, hc, hp] at hnext
  rw [hnext]
  exact ⟨hs, hc, hp, hgoing, rfl, rfl, rfl⟩

/-- A move leaves a shard alone, or it is the step of one of its consumers that is not over. -/
theorem Moved.passes_or_worked {d d' : Daemon L π} {m : DaemonMove} (h : Moved d m d')
    (hl : d.Launched) (shard : String) :
    Passes shard d d' ∨ ∃ now k s c p, m = .task now (.consumer k) ∧ c.identity = shard ∧
      Worked d now k s c p d' := by
  have hsame (h : SameConsumers d d')
      (hface : ∀ r, d.handles = some r → ∃ r', d'.handles = some r' ∧ r.SameFace shard r') :
      Passes shard d d' := ⟨hface, fun k c _ => by rw [h.consumers]⟩
  cases h.effect with
  | nothing hkept =>
    exact .inl (hsame hkept.toSameConsumers fun r hr => ⟨r, hkept.handles.trans hr, .refl shard r⟩)
  | @command now k s item command due r hkept hs hw happly hd =>
    refine .inl (hsame hkept fun r₀ hr₀ => ⟨r, hd, ?_⟩)
    rw [Daemon.handles, hs] at hr₀
    obtain rfl := Option.some.inj hr₀
    exact .apply happly shard
  | @report name e s hkept hs hd =>
    refine .inl (hsame hkept fun r₀ hr₀ => ⟨_, hd, ?_⟩)
    rw [Daemon.handles, hs] at hr₀
    obtain rfl := Option.some.inj hr₀
    exact .report s _ _ e shard
  | @consumer now k s c p hstep =>
    have hhandles : d'.handles = some (c.step p (d.surroundings s) now).2.2.supervisor.shards := by
      rw [Daemon.handles, hstep.supervisor]
      rfl
    have hsteers := c.step_steers (d.surroundings s) p (hl.tidy k c hstep.consumer) now
    by_cases hshard : c.identity = shard
    · cases hover : c.isOver with
      | false =>
        cases h with
        | performs _ =>
          exact .inr ⟨now, k, s, c, p, rfl, hshard,
            d.worked hstep.before hstep.consumer hstep.projection hover now⟩
      | true =>
        -- A consumer that is over stays as it is, and so do its surroundings.
        rw [c.surroundings_of_isOver p _ now hover] at hhandles
        refine .inl ⟨fun r hr => ⟨s.shards, hhandles, ?_⟩, fun j c' _ => ?_⟩
        · rw [Daemon.handles, hstep.before] at hr
          obtain rfl := Option.some.inj hr
          exact .refl shard _
        · obtain ⟨hlt, heq⟩ := List.getElem?_eq_some_iff.mp hstep.consumer
          have hset : d.consumers.set k c = d.consumers := by
            rw [← heq]
            exact List.set_getElem_self hlt
          rw [hstep.consumers, c.step_of_isOver _ p now hover, hset]
    · refine .inl ⟨fun r hr => ⟨_, hhandles, ?_⟩, fun j c' hc' => ?_⟩
      · rw [Daemon.handles, hstep.before] at hr
        obtain rfl := Option.some.inj hr
        exact .of_find (hsteers.spares shard (Ne.symm hshard))
      · rw [hstep.consumers, List.getElem?_set]
        split_ifs with hj hlt
        · subst hj
          rw [hstep.consumer]
          refine iff_of_false (fun heq => hshard ?_) fun heq => hshard ?_
          · rw [← hc', ← Option.some.inj heq, hsteers.identity]
          · rw [← hc', ← Option.some.inj heq]
        · exact absurd (List.getElem?_eq_some_iff.mp hstep.consumer).1 hlt
        · rfl

namespace Daemon

/-- The identities of the shards of the consumers. -/
def identities (d : Daemon L π) : List String := d.consumers.map (·.identity)

/-- A shard has one consumer at most. -/
def Sole (d : Daemon L π) (shard : String) : Prop :=
  ∀ j k : ℕ, d.identities[j]? = some shard → d.identities[k]? = some shard → j = k

omit [EventLog L] [Projection π] in
/-- Two consumers of a shard that has one at most are the same. -/
theorem Sole.eq {d : Daemon L π} {shard : String} (h : d.Sole shard) {j k : ℕ} {c c' : Consumer}
    (hc : d.consumers[j]? = some c) (hc' : d.consumers[k]? = some c') (hj : c.identity = shard)
    (hk : c'.identity = shard) : j = k ∧ c = c' := by
  have hfound {i : ℕ} {c : Consumer} (hc : d.consumers[i]? = some c) (hi : c.identity = shard) :
      d.identities[i]? = some shard := by simp [identities, hc, hi]
  obtain rfl := h j k (hfound hc hj) (hfound hc' hk)
  exact ⟨rfl, Option.some.inj (hc.symm.trans hc')⟩

end Daemon

/-- Every consumer keeps to its shard. -/
theorem Effect.identities {d d' : Daemon L π} {m : DaemonMove} (h : Effect d d' m)
    (hl : d.Launched) : d'.identities = d.identities := by
  unfold Daemon.identities
  cases h with
  | nothing h => rw [h.consumers]
  | command h => rw [h.consumers]
  | report h => rw [h.consumers]
  | @consumer now k s c p h =>
    have hidentity := (c.step_steers (d.surroundings s) p (hl.tidy k c h.consumer) now).identity
    obtain ⟨hlt, heq⟩ := List.getElem?_eq_some_iff.mp h.consumer
    have hlt' : k < (d.consumers.map (·.identity)).length := by simpa using hlt
    have hkept : c.identity = (d.consumers.map (·.identity))[k] := by simp [heq]
    rw [h.consumers, List.map_set, hidentity, hkept]
    exact List.set_getElem_self _

/-! ## Courses -/

namespace Daemon

/-- Every consumer has a handle under the identity of its shard. -/
def Registered (d : Daemon L π) : Prop :=
  ∃ r, d.handles = some r ∧ ∀ (k : ℕ) (c : Consumer), d.consumers[k]? = some c →
    ∃ name, r.name? c.identity = some name ∧ name.identity = c.identity

omit [EventLog L] in
/-- Every consumer has a handle after the launch. -/
theorem registered_of_launch {d d' : Daemon L π} {found found' : Statistics}
    (h : d.launch found = (.ok found', d')) : d'.Registered := by
  have hbooting := launch_booting d found
  rw [h] at hbooting
  obtain ⟨-, ⟨s, hs, hshards⟩, hconsumers⟩ := hbooting
  refine ⟨s.shards, by rw [handles, hs]; rfl, fun k c hc => ?_⟩
  have hmem : c.identity ∈ d.names.map ShardName.identity := by
    rw [← hconsumers]
    exact List.mem_map_of_mem (List.mem_of_getElem? hc)
  obtain ⟨name, hname, hidentity⟩ := List.mem_map.mp hmem
  have hfound := Registry.find?_ofNames d.names c.identity
  cases hfind : d.names.reverse.find? (·.identity = c.identity) with
  | none =>
    have hall := List.find?_eq_none.mp hfind name (List.mem_reverse.mpr hname)
    simp [hidentity] at hall
  | some found =>
    rw [hfind] at hfound
    refine ⟨found, by rw [hshards, Registry.name?, hfound]; rfl, ?_⟩
    simpa using List.find?_some hfind

omit [EventLog L] in
/-- No consumer has begun after the launch, and no shard has stopped. -/
theorem opening_of_launch {d d' : Daemon L π} {found found' : Statistics}
    (h : d.launch found = (.ok found', d')) :
    (∀ (k : ℕ) (c : Consumer), d'.consumers[k]? = some c → c.stage = .opening) ∧
      ∀ r shard, d'.handles = some r → r.status? shard ≠ some .stopped := by
  constructor
  · intro k c hc
    simp only [launch] at h
    split at h
    · cases h
    · obtain ⟨-, rfl⟩ := Prod.mk.inj h
      simp only [enter, List.getElem?_map, Option.map_map, Option.map_eq_some_iff] at hc
      obtain ⟨p, -, rfl⟩ := hc
      rfl
  · intro r shard hr
    have hbooting := launch_booting d found
    rw [h] at hbooting
    obtain ⟨-, ⟨s, hs, hshards⟩, -⟩ := hbooting
    rw [handles, hs] at hr
    obtain rfl := Option.some.inj hr
    show s.shards.status? shard ≠ _
    rw [hshards, Registry.status?, Registry.find?_ofNames]
    cases d.names.reverse.find? (·.identity = shard) with
    | none => simp
    | some name => simp

/-- All consumers of a shard are over, and it has one. -/
structure IsOver (d : Daemon L π) (shard : String) : Prop where
  one : ∃ (k : ℕ) (c : Consumer), d.consumers[k]? = some c ∧ c.identity = shard
  all : ∀ (k : ℕ) (c : Consumer), d.consumers[k]? = some c → c.identity = shard → c.isOver = true

/-- A shard signs off between two states of a daemon: its status is that it has stopped, and this is
what was announced last. -/
structure SignsOff (shard : String) (d d' : Daemon L π) : Prop where
  status : d'.HasStatus shard .stopped
  sent : d.commons.tracker.states.sent < d'.commons.tracker.states.sent
  announced : ∃ p, d'.commons.tracker.states.recent.head? = some ⟨shard, p, .stopped⟩

end Daemon

namespace Course

variable (x : Course L π)

/-- No projection crashes. -/
def Steady : Prop :=
  ∀ n, ∀ p ∈ (x.state n).projections, ∀ e now, (Projection.apply p e now).1 ≠ .crashed

/-- A move ends a consumer. -/
structure EndsAt (k : ℕ) (c : Consumer) (n : ℕ) : Prop where
  before : (x.state n).consumers[k]? = some c
  going : c.isOver = false
  after : ∃ c', (x.state (n + 1)).consumers[k]? = some c' ∧ c'.isOver = true

/-- No step of the consumers of a shard before a move has come to a number that cannot be
represented. -/
def Contained (shard : String) (n : ℕ) : Prop :=
  ∀ m < n, ¬ (x.move m).Overruns shard (x.state m)

variable {x} {shard : String}

/-- The consumers have handles along a course. -/
theorem registered (n : ℕ) : (x.state n).Registered := by
  induction n with
  | zero =>
    obtain ⟨d, found, hlaunch⟩ := x.launch
    exact Daemon.registered_of_launch hlaunch
  | succ n ih =>
    obtain ⟨r, hr, hnames⟩ := ih
    have hmoved (shard : String) := (x.moved n).passes_or_worked (x.launched n) shard
    have hhandles : ∃ r', (x.state (n + 1)).handles = some r' := by
      rcases hmoved "" with hpasses | ⟨now, k, s, c, p, -, -, hworked⟩
      · obtain ⟨r', hr', -⟩ := hpasses.face r hr
        exact ⟨r', hr'⟩
      · exact ⟨_, hworked.handles⟩
    obtain ⟨r', hr'⟩ := hhandles
    refine ⟨r', hr', fun k c hc => ?_⟩
    rcases hmoved c.identity with hpasses | ⟨now, j, s, c₀, p, -, hidentity, hworked⟩
    · obtain ⟨r'', hr'', hface⟩ := hpasses.face r hr
      obtain rfl := Option.some.inj (hr'.symm.trans hr'')
      rw [hface.name]
      exact hnames k c ((hpasses.consumers k c rfl).mp hc)
    · obtain ⟨name, hname, hown⟩ := hnames j c₀ hworked.consumer
      have hleaves := c₀.step_leaves ((x.state n).surroundings s) p now hworked.going
      obtain rfl := Option.some.inj (hr'.symm.trans hworked.handles)
      rw [Daemon.handles, hworked.before] at hr
      obtain rfl := Option.some.inj hr
      exact ⟨name, hidentity ▸ hleaves.name.trans hname, hown.trans hidentity⟩

/-- What holds of the projections after the launch, and is kept when they apply events, holds of
them along a course. -/
theorem projections_of_apply {P : π → Prop} (h : ∀ p e now, P p → P (Projection.apply p e now).2)
    (hlaunch : ∀ p ∈ (x.state 0).projections, P p) (n : ℕ) :
    ∀ p ∈ (x.state n).projections, P p := by
  have hstep (c : Consumer) (p : π) (s : Surroundings L) (now : Moment) (hp : P p) :
      P (c.step p s now).2.1 := by
    obtain ⟨identity, stage, seenMark, seenControl, position⟩ := c
    cases stage with
    | applying b due =>
      cases hevents : b.events with
      | nil => simpa [Consumer.step, hevents] using hp
      | cons e rest => simpa [Consumer.step, hevents] using h p e now hp
    | _ => exact hp
  induction n with
  | zero => exact hlaunch
  | succ n ih =>
    have heffect := x.effect n
    generalize x.move n = m at heffect
    cases heffect with
    | nothing hsame => exact hsame.projections ▸ ih
    | command hsame => exact hsame.projections ▸ ih
    | report hsame => exact hsame.projections ▸ ih
    | @consumer now k s c p hconsumer =>
      intro q hq
      rw [hconsumer.projections] at hq
      rcases List.mem_or_eq_of_mem_set hq with hq | rfl
      · exact ih q hq
      · exact hstep c p _ now (ih p (List.mem_of_getElem? hconsumer.projection))

/-- How a consumer that is not over is left by its step, where nothing crashes that it calls. -/
theorem leaves [ReturningLog L] (hsteady : x.Steady) {n : ℕ} {now : Moment} {k : ℕ} {s : Supervisor}
    {c : Consumer} {p : π} (hm : x.move n = .task now (.consumer k))
    (h : Worked (x.state n) now k s c p (x.state (n + 1))) :
    Leaves c.identity ((x.state n).surroundings s)
      ((x.move n).Overruns c.identity (x.state n))
      ((c.step p ((x.state n).surroundings s) now).1,
        (c.step p ((x.state n).surroundings s) now).2.2) := by
  refine (c.step_leaves _ p now h.going).congr ?_
  have hprojection := hsteady n p (List.mem_of_getElem? h.projection)
  have hwrecked : ¬ c.Wrecked p ((x.state n).surroundings s) now :=
    c.not_wrecked _ fun e => hprojection e now
  rw [or_iff_left hwrecked, hm]
  constructor
  · rintro ⟨s', c', hs', hc', -, hover⟩
    obtain rfl := Option.some.inj (h.before.symm.trans hs')
    obtain rfl := Option.some.inj (h.consumer.symm.trans hc')
    exact hover
  · exact fun hover => ⟨s, c, h.before, h.consumer, rfl, hover⟩

/-- A shard signs off at the end of a consumer exactly if this does not come to a number that cannot
be represented. -/
theorem signsOff_iff [ReturningLog L] (hsteady : x.Steady) {n k : ℕ} {c : Consumer}
    (h : x.EndsAt k c n) :
    (x.state n).SignsOff c.identity (x.state (n + 1)) ↔
      ¬ (x.move n).Overruns c.identity (x.state n) := by
  obtain ⟨hbefore, hgoing, c', hafter, hover⟩ := h
  -- The move is the step of the consumer, since no other one ends it.
  have hchanged : (x.state (n + 1)).consumers[k]? ≠ some c := fun hsame => by
    obtain rfl := Option.some.inj (hsame.symm.trans hafter)
    rw [hgoing] at hover
    cases hover
  rcases (x.moved n).passes_or_worked (x.launched n) c.identity with
    hpasses | ⟨now, j, s, c₀, p, hm, hidentity, hworked⟩
  · exact absurd ((hpasses.consumers k c rfl).mpr hbefore) hchanged
  by_cases hj : j = k
  swap
  · refine absurd ?_ hchanged
    rw [hworked.consumers, List.getElem?_set_ne hj, hbefore]
  subst hj
  obtain rfl := Option.some.inj (hbefore.symm.trans hworked.consumer)
  have hlt : j < (x.state n).consumers.length := (List.getElem?_eq_some_iff.mp hbefore).1
  have hstep : c' = (c.step p ((x.state n).surroundings s) now).1 := by
    rw [hworked.consumers, List.getElem?_set_self hlt] at hafter
    exact (Option.some.inj hafter).symm
  cases leaves hsteady hm hworked with
  | signsOff _ hnot h =>
    refine iff_of_true ⟨?_, ?_, ?_⟩ hnot
    · obtain ⟨r, hr, hnames⟩ := x.registered n
      obtain ⟨name, hname, -⟩ := hnames j c hbefore
      rw [Daemon.handles, hworked.before] at hr
      obtain rfl := Option.some.inj hr
      have hname' := h.name.trans hname
      obtain ⟨handle, hfind, -⟩ := Option.map_eq_some_iff.mp hname'
      exact ⟨_, hworked.handles, handle, hfind, h.status _ (congrArg (Option.map _) hfind)⟩
    · rw [hworked.tracker]
      exact h.sent
    · rw [hworked.tracker]
      exact h.announced
  | breaksOff _ hbreaks h =>
    refine iff_of_false (fun hsigns => ?_) (not_not.mpr hbreaks)
    have hsent := hsigns.sent
    rw [hworked.tracker, ← Surroundings.states, h.states] at hsent
    exact lt_irrefl _ hsent
  | goesOn hgoing' _ _ =>
    rw [← hstep, hover] at hgoing'
    cases hgoing'

/-- A shard whose consumers are all over has stopped, unless one of them came to a number that
cannot be represented. -/
theorem status_of_contained [ReturningLog L] (hsteady : x.Steady) {n : ℕ}
    (hover : (x.state n).IsOver shard) (hcontained : x.Contained shard n) {r : Registry}
    (hr : (x.state n).handles = some r) : ∀ status, r.status? shard = some status →
      status = .stopped := by
  induction n generalizing r with
  | zero =>
    -- No consumer is over after the launch.
    obtain ⟨d, found, hlaunch⟩ := x.launch
    obtain ⟨k, c, hc, hidentity⟩ := hover.one
    have hstage := (Daemon.opening_of_launch hlaunch).1 k c hc
    have := hover.all k c hc hidentity
    simp [Consumer.isOver, hstage] at this
  | succ n ih =>
    obtain ⟨r₀, hr₀, -⟩ := x.registered n
    rcases (x.moved n).passes_or_worked (x.launched n) shard with
      hpasses | ⟨now, k, s, c, p, hm, rfl, hworked⟩
    · obtain ⟨r', hr', hface⟩ := hpasses.face r₀ hr₀
      obtain rfl := Option.some.inj (hr.symm.trans hr')
      have hover₀ : (x.state n).IsOver shard := by
        obtain ⟨k, c, hc, hidentity⟩ := hover.one
        refine ⟨⟨k, c, (hpasses.consumers k c hidentity).mp hc, hidentity⟩, fun j c' hc' hi => ?_⟩
        exact hover.all j c' ((hpasses.consumers j c' hi).mpr hc') hi
      rw [hface.status]
      exact ih hover₀ (fun m hm => hcontained m (hm.trans n.lt_succ_self)) hr₀
    · obtain rfl := Option.some.inj (hr.symm.trans hworked.handles)
      cases leaves hsteady hm hworked with
      | signsOff _ _ h => exact h.status
      | breaksOff _ hbreaks _ => exact absurd hbreaks (hcontained n n.lt_succ_self)
      | goesOn hgoing _ _ =>
        have hlt : k < (x.state n).consumers.length :=
          (List.getElem?_eq_some_iff.mp hworked.consumer).1
        have hend := hover.all k _ (by rw [hworked.consumers, List.getElem?_set_self hlt])
          (c.step_steers _ p ((x.launched n).tidy k c hworked.consumer) now).identity
        rw [hgoing] at hend
        cases hend

/-- The consumers keep to their shards. -/
theorem identities_eq (n : ℕ) : (x.state n).identities = (x.state 0).identities := by
  induction n with
  | zero => rfl
  | succ n ih => exact ((x.effect n).identities (x.launched n)).trans ih

/-- Where a shard has one consumer at most, it does so along the course. -/
theorem sole_iff {m n : ℕ} : (x.state n).Sole shard ↔ (x.state m).Sole shard := by
  unfold Daemon.Sole
  rw [identities_eq n, identities_eq m]

/-- The only consumer of a shard takes a step to a consumer of the shard. -/
theorem consumer_of_worked {n k : ℕ} {now : Moment} {s : Supervisor} {c : Consumer} {p : π}
    (h : Worked (x.state n) now k s c p (x.state (n + 1))) :
    (x.state (n + 1)).consumers[k]? = some (c.step p ((x.state n).surroundings s) now).1 ∧
      (c.step p ((x.state n).surroundings s) now).1.identity = c.identity := by
  have hlt : k < (x.state n).consumers.length := (List.getElem?_eq_some_iff.mp h.consumer).1
  exact ⟨by rw [h.consumers, List.getElem?_set_self hlt],
    (c.step_steers _ p ((x.launched n).tidy k c h.consumer) now).identity⟩

/-- A shard whose only consumer has not ended has not stopped. -/
theorem status_of_sole [ReturningLog L] (hsteady : x.Steady) {n : ℕ}
    (hsole : (x.state n).Sole shard) {k : ℕ} {c : Consumer}
    (hc : (x.state n).consumers[k]? = some c) (hidentity : c.identity = shard)
    (hstage : c.stage ≠ .ended) {r : Registry} (hr : (x.state n).handles = some r) :
    r.status? shard ≠ some .stopped := by
  induction n generalizing c r with
  | zero =>
    obtain ⟨d, found, hlaunch⟩ := x.launch
    exact (Daemon.opening_of_launch hlaunch).2 r shard hr
  | succ n ih =>
    have hsole₀ : (x.state n).Sole shard := sole_iff.mp hsole
    obtain ⟨r₀, hr₀, -⟩ := x.registered n
    rcases (x.moved n).passes_or_worked (x.launched n) shard with
      hpasses | ⟨now, j, s, c₀, p, hm, rfl, hworked⟩
    · obtain ⟨r', hr', hface⟩ := hpasses.face r₀ hr₀
      obtain rfl := Option.some.inj (hr.symm.trans hr')
      rw [hface.status]
      exact ih hsole₀ ((hpasses.consumers k c hidentity).mp hc) hidentity hstage hr₀
    · -- The step was one of the consumer.
      obtain ⟨hafter, hidentity'⟩ := consumer_of_worked hworked
      obtain ⟨rfl, rfl⟩ := hsole.eq hafter hc hidentity' hidentity
      obtain rfl := Option.some.inj (hr.symm.trans hworked.handles)
      have hstage₀ : c₀.stage ≠ .ended := fun hended => by
        have := hworked.going
        simp [Consumer.isOver, hended] at this
      have hbefore : s.shards.status? c₀.identity ≠ some .stopped := by
        refine ih hsole₀ hworked.consumer rfl hstage₀ ?_
        rw [Daemon.handles, hworked.before]
        rfl
      cases leaves hsteady hm hworked with
      | signsOff hended _ _ => exact absurd hended hstage
      | breaksOff _ _ h => exact fun hstopped => hbefore (h.face.status.symm.trans hstopped)
      | goesOn _ _ h => exact fun hstopped => hbefore (h.status hstopped)

/-- A step that comes to a number that cannot be represented crashes its consumer. -/
theorem crashed_of_overruns_next [ReturningLog L] (hsteady : x.Steady) {m : ℕ}
    (h : (x.move m).Overruns shard (x.state m)) :
    ∃ (k : ℕ) (c : Consumer), (x.state (m + 1)).consumers[k]? = some c ∧ c.identity = shard ∧
      c.stage = .crashed := by
  cases hm : x.move m with
  | task now task =>
    cases task with
    | consumer k =>
      rw [hm] at h
      obtain ⟨s, c, hs, hc, rfl, hoverruns⟩ := h
      have hgoing : c.isOver = false := by
        cases hstage : c.stage <;> simp [Consumer.Overruns, Consumer.isOver, hstage] at hoverruns ⊢
      have hlt : k < (x.state m).projections.length := by
        rw [← (x.launched m).wired]
        exact (List.getElem?_eq_some_iff.mp hc).1
      have hp := List.getElem?_eq_getElem hlt
      have hworked := (x.state m).worked hs hc hp hgoing now
      have hmoved := x.moved m
      rw [hm] at hmoved
      have hnext : x.state (m + 1) = (x.state m).perform (.task now (.consumer k)) := by
        generalize x.state (m + 1) = d' at hmoved
        cases hmoved with
        | performs _ => rfl
      rw [← hnext] at hworked
      obtain ⟨hafter, hidentity⟩ := consumer_of_worked hworked
      refine ⟨k, _, hafter, hidentity, ?_⟩
      have hbreaks : (x.move m).Overruns c.identity (x.state m) := by
        rw [hm]
        exact ⟨s, c, hs, hc, rfl, hoverruns⟩
      cases leaves hsteady hm hworked with
      | signsOff _ hnot _ => exact absurd hbreaks hnot
      | breaksOff hstage _ _ => exact hstage
      | goesOn _ hnot _ => exact absurd hbreaks hnot
    | _ => rw [hm] at h; exact h.elim
  | _ => rw [hm] at h; exact h.elim

/-- A consumer that came to a number that cannot be represented has crashed for good, if it is the
only one of its shard. -/
theorem crashed_of_overruns [ReturningLog L] (hsteady : x.Steady) {m n : ℕ} (hmn : m < n)
    (hsole : (x.state n).Sole shard) (h : (x.move m).Overruns shard (x.state m)) :
    ∃ (k : ℕ) (c : Consumer), (x.state n).consumers[k]? = some c ∧ c.identity = shard ∧
      c.stage = .crashed := by
  induction n, (hmn : m + 1 ≤ n) using Nat.le_induction with
  | base => exact crashed_of_overruns_next hsteady h
  | succ n hn ih =>
    have hsole₀ : (x.state n).Sole shard := sole_iff.mp hsole
    obtain ⟨k, c, hc, hidentity, hcrashed⟩ := ih hsole₀
    rcases (x.moved n).passes_or_worked (x.launched n) shard with
      hpasses | ⟨now, j, s, c₀, p, -, hidentity₀, hworked⟩
    · exact ⟨k, c, (hpasses.consumers k c hidentity).mpr hc, hidentity, hcrashed⟩
    · -- No other consumer of the shard could have taken a step.
      obtain ⟨rfl, rfl⟩ := hsole₀.eq hworked.consumer hc hidentity₀ hidentity
      have := hworked.going
      simp [Consumer.isOver, hcrashed] at this

/-- What becomes of consumers that end, where neither the calls of the log nor the projections
crash.

At the end of a consumer its shard signs off, with the status and with a last announcement that it
has stopped, exactly if the last step does not come to a number that cannot be represented. Once all
consumers of a shard are over, and none of them came to such a number, the shard is reported as
stopped, counted in every check of the health, and the daemon is not healthy. A shard whose only
consumer came to such a number is never reported as stopped. A check of the health is answered
exactly if the distances of all shards to the mark can be represented. -/
theorem ended_reported [ReturningLog L] (x : Course L π) (hsteady : x.Steady) :
    (∀ n k c, x.EndsAt k c n →
      ((x.state n).SignsOff c.identity (x.state (n + 1)) ↔
        ¬ (x.move n).Overruns c.identity (x.state n))) ∧
      (∀ n shard, (x.state n).IsOver shard →
        (x.Contained shard n → (x.state n).ReportsStopped shard) ∧
          ((x.state n).Sole shard → (x.state n).ReportsStopped shard → x.Contained shard n)) ∧
      ∀ n r, (x.state n).handles = some r →
        ((∃ check, (x.state n).health = .ok check) ↔
          ∀ h ∈ r.handles, ((x.state n).highWaterMark - h.position).Fits) := by
  refine ⟨fun n k c h => signsOff_iff hsteady h, fun n shard hover => ⟨fun hcontained => ?_, ?_⟩,
    fun n r hr => Daemon.health_isOk_iff hr⟩
  · obtain ⟨r, hr, hnames⟩ := x.registered n
    obtain ⟨k, c, hc, rfl⟩ := hover.one
    obtain ⟨name, hname, hown⟩ := hnames k c hc
    obtain ⟨handle, hfind, rfl⟩ := Option.map_eq_some_iff.mp hname
    refine Daemon.reportsStopped ⟨r, hr, handle, hfind, ?_, hown⟩
    exact status_of_contained hsteady hover hcontained hr _ (congrArg (Option.map _) hfind)
  · intro hsole hreported m hm hoverruns
    obtain ⟨k, c, hc, hidentity, hcrashed⟩ := crashed_of_overruns hsteady hm hsole hoverruns
    obtain ⟨r, hr, handle, hfind, hstatus⟩ := hreported.status
    refine status_of_sole hsteady hsole hc hidentity (by rw [hcrashed]; exact nofun) hr ?_
    rw [Registry.status?, hfind, Option.map_some, hstatus]

end Course

/-! ## Rehearsals -/

namespace Rehearsal.ScriptedProjection

/-- No crash is planned. -/
def Calm (p : ScriptedProjection) : Prop := ∀ f ∈ p.plan, f.mishap ≠ .crash

/-- Where no crash is planned, an event does not bring one, and none is planned afterwards. -/
theorem calm_encounter {p : Position} {plan : List Planned} (h : ∀ f ∈ plan, f.mishap ≠ .crash) :
    (encounter p plan).1 ≠ some .crash ∧ ∀ f ∈ (encounter p plan).2, f.mishap ≠ .crash := by
  induction plan with
  | nil => exact ⟨nofun, nofun⟩
  | cons f rest ih =>
    obtain ⟨hf, hrest⟩ := List.forall_mem_cons.mp h
    unfold encounter
    split_ifs
    · exact ⟨fun hcrash => hf (Option.some.inj hcrash), List.forall_mem_cons.mpr ⟨hf, hrest⟩⟩
    · exact ⟨(ih hrest).1, List.forall_mem_cons.mpr ⟨hf, (ih hrest).2⟩⟩

/-- A projection that plans no crash does not crash, and plans none afterwards. -/
theorem Calm.apply {p : ScriptedProjection} (h : p.Calm) (e : EventRecord) (now : Moment) :
    (Projection.apply p e now).1 ≠ .crashed ∧ (Projection.apply p e now).2.Calm := by
  obtain ⟨hcrash, hplan⟩ := calm_encounter (p := e.sequence) h
  show (p.apply e now).1 ≠ .crashed ∧ (p.apply e now).2.Calm
  unfold ScriptedProjection.apply
  cases hm : (encounter e.sequence p.plan).1 with
  | none =>
    simp only [hm]
    exact ⟨nofun, hplan⟩
  | some m =>
    cases m with
    | failure cause =>
      simp only [hm]
      exact ⟨nofun, hplan⟩
    | crash => exact absurd hm hcrash

end Rehearsal.ScriptedProjection

/-- A course on which no crash is planned at the launch is steady. -/
theorem Course.steady_of_calm {L : Type} [EventLog L] {x : Course L Rehearsal.ScriptedProjection}
    (h : ∀ p ∈ (x.state 0).projections, p.Calm) : x.Steady := fun n p hp e now =>
  ((projections_of_apply (fun _ e now hp => (hp.apply e now).2) h n p hp).apply e now).1

omit [EventLog L] [Projection π] in
/-- A shard is over if it has the only consumer, and this is over. -/
theorem Daemon.isOver_of_consumers {d : Daemon L π} {shard : String}
    (h : d.consumers.map (fun c => (c.identity, c.isOver)) = [(shard, true)]) :
    d.IsOver shard := by
  obtain ⟨c, hc, hpair⟩ := List.map_eq_singleton_iff.mp h
  obtain ⟨hidentity, hover⟩ := Prod.mk.inj hpair
  refine ⟨⟨0, c, by rw [hc]; rfl, hidentity⟩, fun k c' hc' _ => ?_⟩
  have hmem : c' ∈ d.consumers := List.mem_of_getElem? hc'
  rw [hc, List.mem_singleton] at hmem
  exact hmem ▸ hover

/-- A shard that is told to stop in the middle of a batch is reported as stopped once its consumer
is over, and the health of the daemon can be checked. -/
theorem Course.reported_in_rehearsal :
    let x := Course.rehearsal [] [0, 0, 0] [0, 0, 0, 0]
    x.Steady ∧ (x.state 12).SignsOff "T:All" (x.state 13) ∧ (x.state 13).IsOver "T:All" ∧
      (x.state 13).ReportsStopped "T:All" ∧ ∃ check, (x.state 13).health = .ok check := by
  intro x
  have hsteady : x.Steady := steady_of_calm (List.forall_mem_singleton.mpr nofun)
  have hcontained : x.Contained "T:All" 13 := fun m hm => by
    rcases Nat.lt_succ_iff_lt_or_eq.mp hm with hm | rfl
    · interval_cases m
      all_goals
        try exact id
      all_goals
        rintro ⟨s, c, hs, hc, -, hoverruns⟩
        cases hs
        cases hc
        exact hoverruns
    · -- The consumer records its progress, which lies at the mark.
      rintro ⟨s, c, hs, hc, -, hoverruns⟩
      cases hs
      cases hc
      exact hoverruns.2 (by decide)
  obtain ⟨hends, hover, hchecks⟩ := Course.ended_reported x hsteady
  obtain ⟨c, hlast, hidentity⟩ : ∃ c, x.EndsAt 0 c 12 ∧ c.identity = "T:All" :=
    ⟨_, ⟨rfl, rfl, _, rfl, rfl⟩, rfl⟩
  have hsigns := hends 12 0 c hlast
  rw [hidentity] at hsigns
  have hisOver : (x.state 13).IsOver "T:All" := Daemon.isOver_of_consumers (by decide +kernel)
  exact ⟨hsteady, hsigns.mpr (hcontained 12 (by norm_num)), hisOver,
    (hover 13 "T:All" hisOver).1 hcontained, (hchecks 13 _ rfl).mpr (by decide +kernel)⟩

/-- A policy pauses a shard whose events fail for the longest whole number of seconds. The end of
the pause cannot be represented, and the consumer crashes. Its shard counts as running from then on,
and the daemon as healthy. -/
theorem Course.exists_unreported :
    ∃ x : Course MemoryLog Rehearsal.ScriptedProjection,
      x.Steady ∧ (x.state 6).IsOver "T:All" ∧ (x.state 6).HasStatus "T:All" .running ∧
        ∃ check, (x.state 6).health = .ok check ∧ check.shardsStopped = 0 ∧
          check.healthy = true := by
  let rehearsal := Daemon.rehearsal [⟨1, .failure (.plain .applyEvent "poison"), none⟩]
    ⟨[⟨.ofCategory .applyEvent, [.pauseShard (.ofSeconds 0xFFFFFFFFFFFFFFFF)]⟩]⟩
  let d := { rehearsal with agent := (rehearsal.agent.launch rehearsal.commons .rehearsal).2.1 }
  let x : Course MemoryLog Rehearsal.ScriptedProjection :=
    .ofMoves d .rehearsal (by rfl) (.replicate 6 (.task 0 (.consumer 0))) fun m hm => by
      rw [List.eq_of_mem_replicate hm]
      trivial
  have hcalm : ∀ p ∈ (x.state 0).projections, p.Calm :=
    List.forall_mem_singleton.mpr (List.forall_mem_singleton.mpr nofun)
  have hhealth : (x.state 6).health.map (fun check => (check.shardsStopped, check.healthy)) =
      .ok (0, true) := by decide +kernel
  refine ⟨x, steady_of_calm hcalm, Daemon.isOver_of_consumers (by decide +kernel),
    by decide +kernel, ?_⟩
  cases hcheck : (x.state 6).health with
  | error cause => rw [hcheck] at hhealth; cases hhealth
  | ok check =>
    rw [hcheck] at hhealth
    obtain ⟨hstopped, hhealthy⟩ := Prod.mk.inj (Except.ok.inj hhealth)
    exact ⟨check, rfl, hstopped, hhealthy⟩

end Tidemark
