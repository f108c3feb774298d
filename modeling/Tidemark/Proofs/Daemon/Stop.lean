import Mathlib.Tactic.IntervalCases
import Tidemark.Proofs.Daemon.Moves
import Tidemark.Proofs.Shard.Halting

/-!
# What becomes of a stop

Once a shard is told to stop, this stays its instruction exactly as long as no move overrides it,
and a pause does: the one that the shard itself takes up after a failure, and the one that a worker
carries to all shards while the shard has not yet come to its end (`Overrides`).

A shard whose stop is not overridden fetches no further batch, does not resume, and its consumers
end with the status that the shard has stopped, unless they crash (`stop_kept_iff`). Once a shard
has come to its end and stopped, no move overrides its stop (`unopposed_of_isOver`).
-/

namespace Tidemark

variable {L π : Type}

namespace Daemon

/-- The shard is told to stop. -/
abbrev Stopping (d : Daemon L π) (shard : String) : Prop :=
  d.Reads shard fun h => h.control.value = .stop

/-- The status of a shard. -/
abbrev HasStatus (d : Daemon L π) (shard : String) (status : ShardStatus) : Prop :=
  d.Reads shard fun h => h.status = status

end Daemon

variable [EventLog L] [Projection π]

/-- A move overrides the instruction of a shard by a pause: its consumer does, or a worker that
carries a pause to all shards, unless the shard has stopped. -/
def Overrides (shard : String) (d : Daemon L π) : DaemonMove → Prop
  | .task now (.consumer k) => ∃ c, d.consumers[k]? = some c ∧ c.identity = shard ∧ c.Overrides now
  | .task now (.worker k) =>
    ¬ d.HasStatus shard .stopped ∧ ∃ s item delay due r, d.supervisor = some s ∧
      s.commands.worker? k = some (.calling item (.pauseAll delay) due) ∧
        s.shards.apply now (.pauseAll delay) = .ok r
  | _ => False

/-! ## A single move -/

namespace Effect

variable {d d' : Daemon L π} {m : DaemonMove} {shard : String}

/-- A move that does not override the stop of a shard keeps it, and keeps the status of the shard
unless the shard has stopped. -/
theorem stopping (h : Effect d d' m) (hl : d.Launched) {status : ShardStatus}
    (hs : d.Stopping shard) (hstatus : d.HasStatus shard status) (hnot : ¬ Overrides shard d m) :
    d'.Stopping shard ∧ (d'.HasStatus shard status ∨ d'.HasStatus shard .stopped) := by
  -- It is enough to find the handle after the move.
  have hkept {status' : ShardStatus} (hst : status' = status ∨ status' = .stopped)
      (h : d'.Reads shard fun h => h.control.value = .stop ∧ h.status = status') :
      d'.Stopping shard ∧ (d'.HasStatus shard status ∨ d'.HasStatus shard .stopped) := by
    refine ⟨h.imp fun _ hP => hP.1, ?_⟩
    rcases hst with rfl | rfl
    · exact .inl (h.imp fun _ hP => hP.2)
    · exact .inr (h.imp fun _ hP => hP.2)
  have hboth := hs.and hstatus
  cases h with
  | nothing h => exact hkept (.inl rfl) (h.reads hboth)
  | @consumer now k s c p h =>
    have hr : d'.handles = some (c.step p (d.surroundings s) now).2.2.supervisor.shards := by
      rw [Daemon.handles, h.supervisor]
      rfl
    have hbefore := (Daemon.reads_surroundings h.before).mpr hboth
    have htidy := hl.tidy k c h.consumer
    by_cases hc : c.identity = shard
    · subst hc
      have hnot' : ¬ c.Overrides now := fun ho => hnot ⟨c, h.consumer, rfl, ho⟩
      rcases c.step_halts p htidy hbefore hnot' with hhalts | ⟨-, hstays, -⟩
      · cases hhalts with
        | ends h => exact hkept (.inr rfl) ⟨_, hr, h.2⟩
        | crashes h _ => exact hkept (.inl rfl) ⟨_, hr, h⟩
        | goesOn h _ _ => exact hkept (.inl rfl) ⟨_, hr, h⟩
      · exact hkept (.inl rfl) ⟨_, hr, hstays⟩
    · obtain ⟨handle, hfind, hP⟩ := hbefore
      have hspares := (c.step_steers (d.surroundings s) p htidy now).spares shard (Ne.symm hc)
      exact hkept (.inl rfl) ⟨_, hr, handle, hspares.trans hfind, hP⟩
  | @command now k s item command due r h hd hw happly hd' =>
    have hr : d.handles = some s.shards := by rw [Daemon.handles, hd]; rfl
    -- The handle obeys the command: it takes no notice of it, or pauses, or stops once more.
    obtain ⟨handle, hfind, hstop, hst⟩ := hboth.find hr
    rcases Registry.find?_apply happly shard with ⟨hnone, -⟩ | ⟨old, new, hold, hnew, hobey⟩
    · rw [hfind] at hnone
      cases hnone
    obtain rfl := Option.some.inj (hfind.symm.trans hold)
    rcases Registry.obey_cases hobey with ⟨rfl, -⟩ | ⟨hgoing, ⟨delay, rfl⟩, -⟩ | ⟨-, rfl⟩
    · exact hkept (.inl rfl) ⟨r, hd', _, hnew, hstop, hst⟩
    · refine absurd ⟨fun hstopped => ?_, s, item, delay, due, r, hd, hw, happly⟩ hnot
      obtain ⟨handle', hfind', hP⟩ := hstopped.find hr
      obtain rfl := Option.some.inj (hfind.symm.trans hfind')
      exact hgoing hP
    · exact hkept (.inl rfl) ⟨r, hd', _, hnew, rfl, hst⟩
  | @report name e s h hd hd' =>
    have hr : d.handles = some s.shards := by rw [Daemon.handles, hd]; rfl
    obtain ⟨handle, hfind, hstop, hst⟩ := hboth.find hr
    -- A report only counts attempts.
    obtain ⟨handle', hfind', hcontrol, hstatus'⟩ :=
      s.find?_report_some d.commons.metrics name.identity e hfind
    exact hkept (.inl rfl) ⟨_, hd', handle', hfind', hcontrol ▸ hstop, hstatus' ▸ hst⟩

/-- After a move that overrides the stop of a shard, the shard is not told to stop any more. -/
theorem not_stopping (h : Effect d d' m) (hl : d.Launched) (hs : d.Stopping shard)
    (ho : Overrides shard d m) : ¬ d'.Stopping shard := by
  -- It is enough to find another instruction after the move.
  have hgone {due : Moment} (h : d'.Reads shard fun h => h.control.value = .pause due) :
      ¬ d'.Stopping shard := fun hstop => by
    obtain ⟨-, -, handle, -, hpause, hstop⟩ := h.and hstop
    rw [hpause] at hstop
    cases hstop
  obtain ⟨r, hr, handle, hfind, hstop⟩ := hs
  obtain ⟨s, hsupervisor, rfl⟩ := Option.map_eq_some_iff.mp hr
  cases h with
  | @nothing m _ hidle =>
    -- A move that overrides has something to do.
    cases m with
    | task now task =>
      cases task with
      | consumer k =>
        obtain ⟨c, hc, -, -⟩ := ho
        exact absurd hidle (hl.not_idle hr hc now)
      | worker k =>
        obtain ⟨-, s', item, delay, due, r, hs', hw, happly⟩ := ho
        exact absurd happly (hidle s' item _ due r hs' hw)
      | _ => exact ho.elim
    | _ => exact ho.elim
  | @consumer now k s' c p h =>
    obtain ⟨c', hc', rfl, hoverrides⟩ := ho
    obtain rfl := Option.some.inj (h.consumer.symm.trans hc')
    obtain rfl := Option.some.inj (h.before.symm.trans hsupervisor)
    obtain ⟨due, hpaused⟩ :=
      c.instructed_of_overrides p (s := d.surroundings s')
        (P := fun h => h.control.value = .stop) ⟨handle, hfind, hstop⟩ hoverrides
    exact hgone ⟨_, by rw [Daemon.handles, h.supervisor]; rfl, hpaused⟩
  | @command now k s' item command due r h hd hw happly hd' =>
    -- The handle obeys the pause that the worker carries, since the shard has not stopped.
    obtain ⟨hgoing, s'', item', delay, due', r', hd'', hw', happly'⟩ := ho
    obtain rfl := Option.some.inj (hd.symm.trans hd'')
    obtain rfl := Option.some.inj (hd.symm.trans hsupervisor)
    rw [hw] at hw'
    cases hw'
    rcases Registry.find?_apply happly shard with ⟨hnone, -⟩ | ⟨old, new, hold, hnew, hobey⟩
    · rw [hfind] at hnone
      cases hnone
    obtain rfl := Option.some.inj (hfind.symm.trans hold)
    rcases Registry.obey_cases hobey with ⟨-, hstopped⟩ | ⟨-, -, due'', rfl⟩ | ⟨hcommand, -⟩
    · exact absurd ⟨_, hr, handle, hfind, hstopped⟩ hgoing
    · exact hgone ⟨r, hd', _, hnew, rfl⟩
    · cases hcommand
  | report => exact ho.elim

/-- What a move that does not override the stop of a shard does to a consumer of the shard: it ends
it with the status that the shard has stopped, crashes it, or lowers its rank, or the consumer stays
where it is and did not get a turn for which it is ready. -/
theorem halts (h : Effect d d' m) (hl : d.Launched) (hs : d.Stopping shard)
    (hnot : ¬ Overrides shard d m) {k : ℕ} {c : Consumer} (hc : d.consumers[k]? = some c)
    (hidentity : c.identity = shard) :
    ∃ c', d'.consumers[k]? = some c' ∧ c'.identity = shard ∧
      (c'.stage = .ended ∧ d'.HasStatus shard .stopped ∨ c'.stage = .crashed ∨
        c'.isOver = false ∧ c'.rank < c.rank ∨
          c'.stage = c.stage ∧
            ∀ now, m = .task now (.consumer k) → d.wait now (.consumer k) ≠ .ready) := by
  subst hidentity
  have hsame (h : SameConsumers d d') : d'.consumers[k]? = some c := by rwa [h.consumers]
  cases h with
  | nothing h hidle =>
    refine ⟨c, hsame h.toSameConsumers, rfl, .inr (.inr (.inr ⟨rfl, fun now hm => ?_⟩))⟩
    subst hm
    obtain ⟨r, hr, -⟩ := hs
    exact absurd hidle (hl.not_idle hr hc now)
  | command h => exact ⟨c, hsame h, rfl, .inr (.inr (.inr ⟨rfl, nofun⟩))⟩
  | report h => exact ⟨c, hsame h, rfl, .inr (.inr (.inr ⟨rfl, nofun⟩))⟩
  | @consumer now j s c₀ p h =>
    have hr : d'.handles = some (c₀.step p (d.surroundings s) now).2.2.supervisor.shards := by
      rw [Daemon.handles, h.supervisor]
      rfl
    by_cases hj : j = k
    · subst hj
      obtain rfl := Option.some.inj (h.consumer.symm.trans hc)
      obtain ⟨handle, hfind, hstop⟩ := (Daemon.reads_surroundings h.before).mpr hs
      have hlt : j < d.consumers.length := (List.getElem?_eq_some_iff.mp hc).1
      have htidy := hl.tidy j c₀ hc
      have hnot' : ¬ c₀.Overrides now := fun ho => hnot ⟨c₀, hc, rfl, ho⟩
      refine ⟨_, by rw [h.consumers, List.getElem?_set_self hlt],
        (c₀.step_steers _ p htidy now).identity, ?_⟩
      rcases c₀.step_halts p (s := d.surroundings s) htidy ⟨handle, hfind, hstop, rfl⟩ hnot' with
        hhalts | ⟨hstage, -, hwait⟩
      · cases hhalts with
        | ends h =>
          obtain ⟨hended, handle', hfind', -, hstopped⟩ := h
          exact .inl ⟨hended, _, hr, handle', hfind', hstopped⟩
        | crashes _ h => exact .inr (.inl h)
        | goesOn _ hgoing hlt => exact .inr (.inr (.inl ⟨hgoing, hlt⟩))
      · refine .inr (.inr (.inr ⟨hstage, fun now' hm => ?_⟩))
        cases hm
        simpa only [Daemon.wait, h.before, hc] using hwait
    · refine ⟨c, by rw [h.consumers, List.getElem?_set_ne hj, hc], rfl, ?_⟩
      refine .inr (.inr (.inr ⟨rfl, fun now' hm => ?_⟩))
      cases hm
      exact absurd rfl hj

/-- If all consumers of a shard are over, they are over after every move. -/
theorem isOver (h : Effect d d' m) (hl : d.Launched)
    (hover : ∀ (k : ℕ) (c : Consumer), d.consumers[k]? = some c → c.identity = shard →
      c.isOver = true) (k : ℕ) (c : Consumer) (hc : d'.consumers[k]? = some c)
    (hidentity : c.identity = shard) : c.isOver = true := by
  have hsame (h : SameConsumers d d') : c.isOver = true := hover k c (h.consumers ▸ hc) hidentity
  cases h with
  | nothing h => exact hsame h.toSameConsumers
  | command h => exact hsame h
  | report h => exact hsame h
  | @consumer now j s c₀ p h =>
    rw [h.consumers, List.getElem?_set] at hc
    split_ifs at hc with hj hlt
    · cases hc
      have hsteers := c₀.step_steers (d.surroundings s) p (hl.tidy j c₀ h.consumer) now
      have hover₀ := hover j c₀ h.consumer (hsteers.identity.symm.trans hidentity)
      rwa [c₀.step_of_isOver _ p now hover₀]
    · exact hover k c hc hidentity

end Effect

/-! ## Courses -/

/-- A consumer is on its way to fetch a batch. -/
def Consumer.fetches (c : Consumer) : Bool :=
  match c.stage with
  | .loading | .fetching _ _ => true
  | _ => false

/-- Consumers that are on their way to fetch a batch rank above the others. -/
theorem Consumer.fetches_iff (c : Consumer) : c.fetches ↔ toLex (1, 0) ≤ c.rank := by
  obtain ⟨identity, stage, seenMark, seenControl, position⟩ := c
  cases stage <;> simp [fetches, rank, Prod.Lex.toLex_le_toLex]

namespace Course

variable (x : Course L π)

/-- From some move on, no move overrides the instruction of a shard. -/
def Unopposed (shard : String) (N : ℕ) : Prop :=
  ∀ n ≥ N, ¬ Overrides shard (x.state n) (x.move n)

/-- A consumer gets a turn for which it is ready again and again, until it is over. -/
def Serves (k : ℕ) : Prop :=
  ∀ n, ∃ m ≥ n, (∃ c, (x.state m).consumers[k]? = some c ∧ c.isOver = true) ∨
    ∃ now, x.move m = .task now (.consumer k) ∧ (x.state m).wait now (.consumer k) = .ready

/-- A consumer comes to its end, and its shard has stopped from then on, or it crashes. -/
def Ends (shard : String) (k n : ℕ) : Prop :=
  ∃ m ≥ n, ∃ c, (x.state m).consumers[k]? = some c ∧
    (c.stage = .crashed ∨
      c.stage = .ended ∧ ∀ m' ≥ m, (x.state m').HasStatus shard .stopped)

variable {x} {shard : String} {N : ℕ}

/-- A stop that no move overrides is kept. -/
theorem stopping (hstop : (x.state N).Stopping shard) (hfree : x.Unopposed shard N) :
    ∀ n ≥ N, (x.state n).Stopping shard := fun n hn => by
  induction n, hn using Nat.le_induction with
  | base => exact hstop
  | succ n hn ih =>
    obtain ⟨r, hr, handle, hfind, -⟩ := id ih
    exact ((x.effect n).stopping (x.launched n) ih ⟨r, hr, handle, hfind, rfl⟩ (hfree n hn)).1

/-- A shard that has stopped, and is told to, remains so. -/
theorem stopped (hstop : (x.state N).Stopping shard) (hfree : x.Unopposed shard N) {n : ℕ}
    (hn : n ≥ N) (hstopped : (x.state n).HasStatus shard .stopped) :
    ∀ m ≥ n, (x.state m).HasStatus shard .stopped := fun m hm => by
  induction m, hm using Nat.le_induction with
  | base => exact hstopped
  | succ m hm ih =>
    have hm' : m ≥ N := le_trans hn hm
    exact ((x.effect m).stopping (x.launched m) (stopping hstop hfree m hm') ih
      (hfree m hm')).2.elim id id

/-- What comes to its end later on comes to its end. -/
theorem Ends.mono {k n n' : ℕ} (h : x.Ends shard k n') (hn : n ≤ n') : x.Ends shard k n := by
  obtain ⟨m, hm, hends⟩ := h
  exact ⟨m, le_trans hn hm, hends⟩

/-- A move brings a consumer of a shard that is told to stop to its end or lowers its rank, or the
consumer did not get a turn for which it is ready. -/
theorem ends_or_goes_on (hstop : (x.state N).Stopping shard) (hfree : x.Unopposed shard N) {n k : ℕ}
    (hn : n ≥ N) {c : Consumer} (hc : (x.state n).consumers[k]? = some c)
    (hidentity : c.identity = shard) (hgoing : c.isOver = false) :
    x.Ends shard k n ∨ ∃ c', (x.state (n + 1)).consumers[k]? = some c' ∧ c'.identity = shard ∧
      c'.isOver = false ∧ (c'.rank < c.rank ∨ c'.rank = c.rank ∧
        ∀ now, x.move n = .task now (.consumer k) →
          (x.state n).wait now (.consumer k) ≠ .ready) := by
  obtain ⟨c', hc', hidentity', hcases⟩ := (x.effect n).halts (x.launched n)
    (stopping hstop hfree n hn) (hfree n hn) hc hidentity
  rcases hcases with ⟨hended, hstopped⟩ | hcrashed | ⟨hgoing', hlt⟩ | ⟨hstage, hturn⟩
  · exact .inl ⟨n + 1, n.le_succ, c', hc',
      .inr ⟨hended, stopped hstop hfree (le_trans hn n.le_succ) hstopped⟩⟩
  · exact .inl ⟨n + 1, n.le_succ, c', hc', .inl hcrashed⟩
  · exact .inr ⟨c', hc', hidentity', hgoing', .inl hlt⟩
  · refine .inr ⟨c', hc', hidentity', ?_, .inr ⟨?_, hturn⟩⟩
    · simpa only [Consumer.isOver, hstage] using hgoing
    · simp only [Consumer.rank, hstage]

/-- A consumer of a shard that is told to stop comes to its end if it gets its turns. The induction
is on its rank, and then on the number of moves that are left to its next turn. -/
theorem ends (hstop : (x.state N).Stopping shard) (hfree : x.Unopposed shard N) {k : ℕ}
    (hserves : x.Serves k) {n : ℕ} (hn : n ≥ N) {c : Consumer}
    (hc : (x.state n).consumers[k]? = some c) (hidentity : c.identity = shard)
    (hgoing : c.isOver = false) : x.Ends shard k n := by
  induction hrank : c.rank using WellFoundedLT.induction generalizing n c with
  | _ rank ih =>
    obtain ⟨m, hm, hturn⟩ := hserves n
    obtain ⟨left, rfl⟩ := Nat.exists_eq_add_of_le hm
    clear hm
    induction left generalizing n c with
    | zero =>
      rcases ends_or_goes_on hstop hfree hn hc hidentity hgoing with
        hends | ⟨c', hc', hidentity', hgoing', hlt | ⟨-, hnone⟩⟩
      · exact hends
      · exact (ih _ (hrank ▸ hlt) (le_trans hn n.le_succ) hc' hidentity' hgoing' rfl).mono n.le_succ
      · rcases hturn with ⟨c₀, hc₀, hover⟩ | ⟨now, hmove, hready⟩
        · obtain rfl := Option.some.inj (hc.symm.trans hc₀)
          rw [hgoing] at hover
          cases hover
        · exact absurd hready (hnone now hmove)
    | succ left ihleft =>
      rcases ends_or_goes_on hstop hfree hn hc hidentity hgoing with
        hends | ⟨c', hc', hidentity', hgoing', hlt | ⟨heq, -⟩⟩
      · exact hends
      · exact (ih _ (hrank ▸ hlt) (le_trans hn n.le_succ) hc' hidentity' hgoing' rfl).mono n.le_succ
      · rw [← Nat.add_assoc, Nat.add_right_comm] at hturn
        exact (ihleft (le_trans hn n.le_succ) hc' hidentity' hgoing' (heq.trans hrank) hturn).mono
          n.le_succ

/-- A shard is told to stop. This stays its instruction exactly if no move overrides it from then
on. If so, its status does not change any more except to `stopped`, its consumers do not set out to
fetch a batch, and every one of them that was not over and gets its turns ends, with the status that
the shard has stopped from then on, or crashes. -/
theorem stop_kept_iff (x : Course L π) {shard : String} {N : ℕ}
    (hstop : (x.state N).Stopping shard) :
    ((∀ n ≥ N, (x.state n).Stopping shard) ↔ x.Unopposed shard N) ∧
      (x.Unopposed shard N →
        (∀ n ≥ N, ∀ status, (x.state n).HasStatus shard status →
          (x.state (n + 1)).HasStatus shard status ∨ (x.state (n + 1)).HasStatus shard .stopped) ∧
        (∀ n ≥ N, ∀ (k : ℕ) (c c' : Consumer), (x.state n).consumers[k]? = some c →
          c.identity = shard → (x.state (n + 1)).consumers[k]? = some c' →
            c'.fetches → c.fetches) ∧
        ∀ (k : ℕ) (c : Consumer), (x.state N).consumers[k]? = some c → c.identity = shard →
          c.isOver = false → x.Serves k → x.Ends shard k N) := by
  refine ⟨⟨fun hall n hn ho => ?_, stopping hstop⟩, fun hfree => ⟨?_, ?_, ?_⟩⟩
  · exact (x.effect n).not_stopping (x.launched n) (hall n hn) ho (hall (n + 1) (by omega))
  · intro n hn status hstatus
    exact ((x.effect n).stopping (x.launched n) (stopping hstop hfree n hn) hstatus
      (hfree n hn)).2
  · intro n hn k c c' hc hidentity hc' hfetches
    obtain ⟨c'', hc'', -, hcases⟩ := (x.effect n).halts (x.launched n) (stopping hstop hfree n hn)
      (hfree n hn) hc hidentity
    obtain rfl := Option.some.inj (hc'.symm.trans hc'')
    rcases hcases with ⟨hstage, -⟩ | hstage | ⟨-, hlt⟩ | ⟨hstage, -⟩
    · simp [Consumer.fetches, hstage] at hfetches
    · simp [Consumer.fetches, hstage] at hfetches
    · exact c.fetches_iff.mpr ((c'.fetches_iff.mp hfetches).trans hlt.le)
    · simpa only [Consumer.fetches, hstage] using hfetches
  · intro k c hc hidentity hgoing hserves
    exact ends hstop hfree hserves (le_refl N) hc hidentity hgoing

/-- A stop to which a shard has come is final: once all consumers of the shard are over and it has
stopped, no move overrides the stop any more. -/
theorem unopposed_of_isOver (hstop : (x.state N).Stopping shard)
    (hstopped : (x.state N).HasStatus shard .stopped)
    (hover : ∀ (k : ℕ) (c : Consumer), (x.state N).consumers[k]? = some c → c.identity = shard →
      c.isOver = true) : x.Unopposed shard N := by
  -- Consumers that are over report nothing, and pauses pass over shards that have stopped.
  have hnot {d : Daemon L π} {m : DaemonMove} (hstatus : d.HasStatus shard .stopped)
      (hover : ∀ (k : ℕ) (c : Consumer), d.consumers[k]? = some c → c.identity = shard →
        c.isOver = true) : ¬ Overrides shard d m := fun ho => by
    cases m with
    | task now task =>
      cases task with
      | consumer k =>
        obtain ⟨c, hc, hidentity, i, a, b, due, hstage, -⟩ := ho
        have := hover k c hc hidentity
        simp [Consumer.isOver, hstage] at this
      | worker k => exact ho.1 hstatus
      | _ => exact ho.elim
    | _ => exact ho.elim
  have hkept (n : ℕ) (hn : n ≥ N) : (x.state n).Stopping shard ∧
      (x.state n).HasStatus shard .stopped ∧ ∀ (k : ℕ) (c : Consumer),
        (x.state n).consumers[k]? = some c → c.identity = shard → c.isOver = true := by
    induction n, hn using Nat.le_induction with
    | base => exact ⟨hstop, hstopped, hover⟩
    | succ n hn ih =>
      obtain ⟨hstop', hstopped', hover'⟩ := ih
      obtain ⟨hnext, hstatus⟩ := (x.effect n).stopping (x.launched n) hstop' hstopped'
        (hnot hstopped' hover')
      exact ⟨hnext, hstatus.elim id id, (x.effect n).isOver (x.launched n) hover'⟩
  exact fun n hn => hnot (hkept n hn).2.1 (hkept n hn).2.2

end Course

/-! ## Rehearsals -/

/-- Someone reports a failure that stops all shards, and a worker carries this to them. -/
def stopMoves : List DaemonMove :=
  [.report (.whole "T") (.plain .timeout "late"),
    .call (.reporting (.posting .stopAllShards (.sending ⟨.stopAll, 0⟩))) 0,
    .task 0 .dispatcher, .task 0 .dispatcher, .task 0 (.worker 0), .task 0 (.worker 0)]

/-- Every move of these follows the launch. -/
theorem follows_of_mem_stopMoves : ∀ m ∈ stopMoves, m.Follows := by
  simp [stopMoves, DaemonMove.Follows, DaemonCall.Follows, Reporting.Queues]

/-- Pauses a shard whose events fail, and stops all shards if something takes too long. -/
def Policy.pausing : Policy :=
  ⟨[⟨.ofCategory .applyEvent, [.pauseShard (.ofMillis 10)]⟩,
    ⟨.ofCategory .timeout, [.stopAllShards]⟩]⟩

/-- What the detection before the launch of a rehearsal found. -/
def Statistics.rehearsal : Statistics := ⟨0, 3, 3, 0, ⟨0, false⟩, none⟩

/-- A course on which the shard takes some steps, is told to stop, and takes further steps. -/
def Course.rehearsal (plan : List Rehearsal.Planned) (before after : List Moment) :
    Course MemoryLog Rehearsal.ScriptedProjection :=
  .ofMoves (Daemon.rehearsal plan .pausing) .rehearsal (by rfl)
    (before.map (.task · (.consumer 0)) ++ stopMoves ++ after.map (.task · (.consumer 0))) (by
      intro m hm
      rcases List.mem_append.mp hm with hm | hm
      · rcases List.mem_append.mp hm with hm | hm
        · obtain ⟨now, -, rfl⟩ := List.mem_map.mp hm
          trivial
        · exact follows_of_mem_stopMoves m hm
      · obtain ⟨now, -, rfl⟩ := List.mem_map.mp hm
        trivial)

/-- A shard that is told to stop in the middle of a batch, none of whose events fails, ends with the
batch. -/
theorem Course.stop_kept_in_rehearsal :
    let x := Course.rehearsal [] [0, 0, 0] [0, 0, 0, 0, 0]
    (x.state 9).Stopping "T:All" ∧ (∀ n ≥ 9, (x.state n).Stopping "T:All") ∧
      x.Ends "T:All" 0 9 := by
  intro x
  have hstop : (x.state 9).Stopping "T:All" := ⟨_, rfl, _, rfl, rfl⟩
  have hrests {n : ℕ} (hn : 14 ≤ n) : x.move n = .elsewhere ∧ x.state n = x.state 14 :=
    Course.ofMoves_rests _ _ hn
  have hfree : x.Unopposed "T:All" 9 := fun n hn => by
    rcases lt_or_ge n 14 with hlt | hge
    · -- The consumer applies the events of the batch, and never comes upon a failure.
      interval_cases n
      all_goals
        rintro ⟨c, hc, -, i, k, d, due, hstage, -⟩
        cases hc
        cases hstage
    · rw [(hrests hge).1]
      exact id
  have hserves : x.Serves 0 := fun n => by
    refine ⟨max n 14, le_max_left n 14, .inl ?_⟩
    rw [(hrests (le_max_right n 14)).2]
    exact ⟨_, rfl, rfl⟩
  obtain ⟨hkept, hends⟩ := x.stop_kept_iff hstop
  exact ⟨hstop, hkept.mpr hfree, (hends hfree).2.2 0 _ rfl rfl rfl hserves⟩

/-- An event fails once, for which its shard is to be paused, and all shards are told to stop before
the shard acts on that: it pauses, resumes and gets through with a further batch. -/
theorem Course.exists_overridden_stop :
    ∃ x : Course MemoryLog Rehearsal.ScriptedProjection,
      (x.state 11).Stopping "T:All" ∧ ¬ (x.state 12).Stopping "T:All" ∧
        (x.state 12).HasStatus "T:All" .paused ∧ (x.state 13).HasStatus "T:All" .running ∧
          (x.state 13).consumers.any (·.fetches) ∧
            (x.state 18).Reads "T:All" fun h => h.position = 3 := by
  let plan : List Rehearsal.Planned := [⟨1, .failure (.plain .applyEvent "poison"), some 1⟩]
  let due : Moment := 10000000
  let x := Course.rehearsal plan [0, 0, 0, 0, 0] [0, due, due, due, due, due, due]
  refine ⟨x, ?_, ?_, ?_, ?_, ?_, ?_⟩
  all_goals decide +kernel

end Tidemark
