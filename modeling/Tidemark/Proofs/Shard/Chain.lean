import Tidemark.Proofs.Shard.Attempts

/-!
# Retry chains

A `ShardCourse` is any endless sequence of moves: steps of a consumer, taken when it has not to
wait, and whatever others do. On a course of a trial (`Undergoes`) the attempts made so far and
those that are left are always the plan (`Undergoes.stands`), and the consumer comes to the end of
the plan (`Undergoes.settles`). So a retry chain is walked exactly (`ShardCourse.walks_chain`),
wherever the failing event stands in its batch.

This needs a mark whose distance from the progress can be represented: a shard whose events reach up
to the last position crashes on measuring its lag, and never gets to the failing event
(`ShardCourse.exists_crash`).
-/

namespace Tidemark

open LogView
open Attempt (once walk)

variable {L π : Type}

/-! ## Courses -/

/-- A move of a shard. -/
inductive ShardMove (L : Type) where
  /-- The consumer takes a step, unless it has to wait. -/
  | work (now : Moment)
  /-- Others change the surroundings. -/
  | elsewhere (f : Surroundings L → Surroundings L)

/-- A shard begins, takes its steps, and is left to itself. -/
structure ShardCourse (L π : Type) where
  start : ShardTask L π
  move : ℕ → ShardMove L

namespace ShardTask

/-- What the consumer waits for. -/
def wait (u : ShardTask L π) (now : Moment) : Wait := u.consumer.wait u.surroundings now

variable [EventLog L] [Projection π]

/-- The task after a move. -/
def perform (u : ShardTask L π) : ShardMove L → ShardTask L π
  | .work now => if u.wait now = .ready then u.step now else u
  | .elsewhere f => { u with surroundings := f u.surroundings }

omit [EventLog L] in
/-- What a move does about events. -/
def attempt (u : ShardTask L π) : ShardMove L → Option Attempt
  | .work now =>
    if u.wait now = .ready then u.consumer.attempt u.projection u.surroundings now else none
  | .elsewhere _ => none

end ShardTask

namespace ShardCourse

variable [EventLog L] [Projection π] (x : ShardCourse L π)

/-- The task before a move. -/
def state : ℕ → ShardTask L π
  | 0 => x.start
  | n + 1 => (state n).perform (x.move n)

/-- What a move does about events. -/
def attempt (n : ℕ) : Option Attempt := (x.state n).attempt (x.move n)

/-- What has been done about events before a move, in order. -/
def attempts : ℕ → List Attempt
  | 0 => []
  | n + 1 => attempts n ++ (x.attempt n).toList

/-- How often an event has been tried before a move. -/
def tries (e : EventRecord) (n : ℕ) : ℕ := (x.attempts n).countP (·.isTryOf e)

/-- The consumer takes a step. -/
def Works (n : ℕ) (now : Moment) : Prop := x.move n = .work now ∧ (x.state n).wait now = .ready

end ShardCourse

/-- What others may do that leave alone what matters for a trial. They may store events above the
mark. -/
structure Quiet [LogView L] (shard : String) (s s' : Surroundings L) : Prop where
  kept : Kept s.commons.log → Kept s'.commons.log
  row : s'.row shard = s.row shard
  events : ∀ p, eventsWithin p s.mark s'.events = eventsWithin p s.mark s.events
  mark : s'.commons.tracker.mark = s.commons.tracker.mark
  handle : s'.supervisor.shards.find? shard = s.supervisor.shards.find? shard
  policy : s'.supervisor.policy = s.supervisor.policy
  batchSize : s'.batchSize = s.batchSize
  shutdown : s'.shutdown = s.shutdown

/-- A course of a trial. -/
structure ShardCourse.Undergoes [EventLog L] [LawfulLog L] [Projection π] (x : ShardCourse L π)
    (t : Trial) : Prop where
  identity : x.start.consumer.identity = t.shard
  fresh : x.start.Fresh
  /-- At the beginning no failures are counted. -/
  holds : t.Holds x.start.surroundings t.start 0
  /-- The event lies above the progress on record and at or below the mark. -/
  ahead : t.event ∈ t.ahead t.start
  quiet : ∀ n f, x.move n = .elsewhere f →
    Quiet t.shard (x.state n).surroundings (f (x.state n).surroundings)
  /-- Time does not go back. -/
  clock : ∀ m n now now', m ≤ n → x.move m = .work now → x.move n = .work now' → now ≤ now'
  /-- The log answers every call. -/
  served : ∀ n now, x.Works n now → (x.state n).consumer.isServed (x.state n).surroundings now
  /-- The event fails at its first tries, and all else goes through. -/
  governs : ∀ n now, x.Works n now →
    t.governs (x.tries t.event n) (x.state n).consumer (x.state n).projection now
  /-- The consumer takes a step again and again, unless it waits for others alone. -/
  fair : ∀ n, ∃ m ≥ n, (∃ now, x.Works m now) ∨ ∀ now, (x.state m).wait now ≠ .ready

/-- Others that do nothing leave everything alone. -/
theorem Quiet.refl [LogView L] (shard : String) (s : Surroundings L) : Quiet shard s s :=
  ⟨id, rfl, fun _ => rfl, rfl, rfl, rfl, rfl, rfl⟩

/-! ## Attempts on a course -/

namespace Trial

variable [EventLog L] [LawfulLog L] {t : Trial} {s s' : Surroundings L} {r : Position}
  {counted n : ℕ}

/-- What holds of the surroundings is left alone by others. -/
theorem Holds.quiet (h : t.Holds s r counted) (hq : Quiet t.shard s s') : t.Holds s' r counted where
  kept := hq.kept h.kept
  events p := by
    have hmark : s.mark = t.mark.value := congrArg Watched.value h.mark
    rw [← hmark, hq.events, hmark, h.events]
  mark := hq.mark.trans h.mark
  policy := hq.policy.trans h.policy
  batchSize := hq.batchSize.trans h.batchSize
  shutdown := hq.shutdown.trans h.shutdown
  row := hq.row.trans h.row
  handle := by
    obtain ⟨old, hfind, hold⟩ := h.handle
    exact ⟨old, hq.handle.trans hfind, hold⟩

/-- A shard between batches is left alone by others. -/
theorem Between.quiet (h : t.Between s r counted n) (hq : Quiet t.shard s s') :
    t.Between s' r counted n := ⟨h.holds.quiet hq, h.placed, h.tally, h.rested⟩

/-- A shard in the middle of a batch is left alone by others. -/
theorem Within.quiet {b : Batch} (h : t.Within s b counted n) (hq : Quiet t.shard s s') :
    t.Within s' b counted n := { h with holds := h.holds.quiet hq }

/-- The phase of a consumer is left alone by others. -/
theorem Phase.quiet {c : Consumer} {left : List Attempt} (h : t.Phase c s n left)
    (hq : Quiet t.shard s s') : t.Phase c s' n left := by
  cases h with
  | opens h => exact .opens (h.quiet hq)
  | loads h => exact .loads (h.quiet hq)
  | fetches h hmark => exact .fetches (h.quiet hq) hmark
  | applies h hne => exact .applies (h.quiet hq) hne
  | closes h hes => exact .closes (h.quiet hq) hes
  | saves hs h hrule hlt => exact .saves (hs.quiet hq) h hrule hlt
  | fails hs h hrule => exact .fails (hs.quiet hq) h hrule
  | resolves hs h => exact .resolves (hs.quiet hq) h
  | waits hs h hn => exact .waits (hs.quiet hq) h hn
  | rests hs hpasses => exact .rests (hs.quiet hq) hpasses
  | ends hstatus hf hm =>
    obtain ⟨old, hfind, hold⟩ := hstatus
    exact .ends ⟨old, hq.handle.trans hfind, hold⟩ (hq.row.symm ▸ hf) hm

/-- A consumer at the stage has nothing to do by itself. -/
def Over (stage : ConsumerStage) : Prop := stage = .idle ∨ stage = .ended

/-- What has become of the shard when it has come to the end of the plan: it has reached the mark
and counts no failures, or it has stopped before the event. -/
inductive Settled (t : Trial) (c : Consumer) (s : Surroundings L) : Prop where
  | rests (hstage : c.stage = .idle) (hpasses : t.failures ≤ t.delays.length)
    (hrow : s.row t.shard = t.mark.value) (hcounted : s.Reads t.shard fun h => h.attempts = 0)
  | ends (hstage : c.stage = .ended) (hfails : (t.delays.length : ℕ∞) < t.failures)
    (hstatus : s.Reads t.shard fun h => h.status = .stopped)
    (hplaced : t.Placed (s.row t.shard)) (hnext : ∃ es, t.ahead (s.row t.shard) = t.event :: es)

/-- Until it has come to the end of the plan, a consumer is ready sooner or later. -/
theorem Phase.ready {c : Consumer} {left : List Attempt} (h : t.Phase c s n left)
    (hover : ¬ Over c.stage) : ∃ now, c.wait s now = .ready := by
  cases h with
  | @applies _ _ _ _ _ due => exact ⟨due, if_pos le_rfl⟩
  | @waits _ _ _ _ _ _ due _ hs =>
    exact ⟨due, by simp [Consumer.wait, hs.shutdown, Wait.either, Wait.till]⟩
  | rests => exact absurd (.inl rfl) hover
  | ends => exact absurd (.inr rfl) hover
  | _ => exact ⟨0, rfl⟩

/-- A consumer that has nothing to do by itself has come to the end of the plan, and goes on
waiting. -/
theorem Phase.settled {c : Consumer} {left : List Attempt} (h : t.Phase c s n left)
    (hover : Over c.stage) : left = [] ∧ t.Settled c s ∧ ∀ now, c.wait s now ≠ .ready := by
  cases h with
  | rests hs hpasses =>
    have hcontrol := hs.handle.handle.1
    obtain ⟨old, hfind, -, hcounted⟩ := hs.handle
    refine ⟨rfl, .rests rfl hpasses hs.row ⟨old, hfind, hcounted⟩, fun now => ?_⟩
    simp [Consumer.wait, Wait.for, hs.shutdown, hs.mark, hcontrol, Watched.isNew]
  | ends hstatus hf hm =>
    refine ⟨rfl, .ends rfl ?_ hstatus hf.placed hf.next, fun now hready => by cases hready⟩
    exact lt_of_le_of_lt (by exact_mod_cast hm) (of_decide_eq_true hf.fails)
  | _ => rcases hover with hover | hover <;> cases hover

/-- A consumer that waits takes no step before its time has come. -/
theorem Phase.due_le {c : Consumer} {left : List Attempt} (h : t.Phase c s n left) {i : Interrupted}
    {due now : Moment} (hstage : c.stage = .backingOff i due) (hready : c.wait s now = .ready) :
    due ≤ now := by
  cases h with
  | waits hs hf hn =>
    cases hstage
    simp only [Consumer.wait, hs.shutdown, Wait.either, Wait.till, Bool.false_eq_true, if_false]
      at hready
    by_contra hlate
    simp [hlate] at hready
  | _ => cases hstage

end Trial

namespace ShardCourse

variable [EventLog L] [LawfulLog L] [Projection π] {x : ShardCourse L π} {t : Trial} {n : ℕ}

/-- What is left of the plan before a move. -/
def left (x : ShardCourse L π) (t : Trial) (n : ℕ) : List Attempt :=
  t.whole.drop (x.attempts n).length

/-- How far the consumer is from the end of the plan before a move. -/
def rank (x : ShardCourse L π) (t : Trial) (n : ℕ) : ℕ ×ₗ ℕ ×ₗ ℕ :=
  t.rank ((x.state n).surroundings.row t.shard) (x.state n).consumer.stage.toGo (x.left t n)

/-- What holds before a move: the attempts made so far are the beginning of the plan, and the
consumer is about to make those that are left. -/
structure Stands (x : ShardCourse L π) (t : Trial) (n : ℕ) : Prop where
  split : x.attempts n ++ x.left t n = t.whole
  phase : t.Phase (x.state n).consumer (x.state n).surroundings (x.tries t.event n) (x.left t n)

/-- A consumer that has not taken a step has the whole plan left. -/
theorem Stands.start {counted : ℕ} (hidentity : x.start.consumer.identity = t.shard)
    (hfresh : x.start.Fresh) (h : t.Between x.start.surroundings t.start counted 0) :
    x.Stands t 0 := by
  have hstart : x.start.consumer =
      ⟨t.shard, .opening, x.start.consumer.seenMark, x.start.consumer.seenControl, none⟩ := by
    rw [← hidentity, ← hfresh.stage, ← hfresh.position]
  refine ⟨rfl, ?_⟩
  show t.Phase x.start.consumer x.start.surroundings 0 t.whole
  rw [hstart]
  exact .opens h

omit [LawfulLog L] in
/-- What is left of the plan follows what was done. -/
theorem left_eq {rest : List Attempt} (h : x.attempts n ++ rest = t.whole) : x.left t n = rest := by
  rw [left, ← h, List.drop_left]

omit [LawfulLog L] in
/-- What a step of the consumer does. -/
theorem Works.succ {now : Moment} (h : x.Works n now) :
    x.state (n + 1) = (x.state n).step now ∧
      x.attempt n = (x.state n).consumer.attempt (x.state n).projection (x.state n).surroundings
        now := by
  obtain ⟨hmove, hready⟩ := h
  constructor
  · rw [state, hmove, ShardTask.perform, if_pos hready]
  · rw [attempt, hmove, ShardTask.attempt, if_pos hready]

/-- A move at which the consumer takes no step is one of others. -/
theorem quiet_of_not_works {shard : String}
    (hquiet : ∀ f, x.move n = .elsewhere f →
      Quiet shard (x.state n).surroundings (f (x.state n).surroundings))
    (h : ∀ now, ¬ x.Works n now) :
    (x.state (n + 1)).consumer = (x.state n).consumer ∧
      Quiet shard (x.state n).surroundings (x.state (n + 1)).surroundings ∧
        x.attempt n = none := by
  cases hmove : x.move n with
  | work now =>
    have hnot : (x.state n).wait now ≠ .ready := fun hready => h now ⟨hmove, hready⟩
    rw [state, attempt, hmove, ShardTask.perform, ShardTask.attempt, if_neg hnot, if_neg hnot]
    exact ⟨rfl, .refl _ _, rfl⟩
  | elsewhere f =>
    rw [state, attempt, hmove]
    exact ⟨rfl, hquiet f hmove, rfl⟩

omit [LawfulLog L] in
/-- If the consumer takes a step again and again, unless it waits for others alone, a course comes
to a goal where every step on the way lowers a rank and no other move raises it. -/
theorem exists_reached {α : Type} [Preorder α] [WellFoundedLT α] (rank : ℕ → α) {Goal : ℕ → Prop}
    (hfair : ∀ n, ∃ m ≥ n, (∃ now, x.Works m now) ∨ ∀ now, (x.state m).wait now ≠ .ready)
    (hready : ∀ n, ¬ Goal n → ∃ now, (x.state n).wait now = .ready)
    (hworks : ∀ n now, ¬ Goal n → ¬ Goal (n + 1) → x.Works n now → rank (n + 1) < rank n)
    (hothers : ∀ n, ¬ Goal n → (∀ now, ¬ x.Works n now) → rank (n + 1) ≤ rank n) (n : ℕ) :
    ∃ N ≥ n, Goal N := by
  -- By induction on the rank, which is lowered by every step that the consumer takes.
  induction hrank : rank n using WellFoundedLT.induction generalizing n with
  | ind r ih =>
    subst hrank
    by_contra hnever
    have hnot (m : ℕ) (hm : n ≤ m) : ¬ Goal m := fun hgoal => hnever ⟨m, hm, hgoal⟩
    have hlowers {m : ℕ} (hm : n ≤ m) {now : Moment} (hw : x.Works m now) :
        rank (m + 1) < rank m :=
      hworks m now (hnot m hm) (hnot (m + 1) (Nat.le_succ_of_le hm)) hw
    have hle {m : ℕ} (hm : n ≤ m) : rank m ≤ rank n := by
      induction m, hm using Nat.le_induction with
      | base => exact le_rfl
      | succ m hm ih =>
        refine le_trans ?_ ih
        by_cases hw : ∃ now, x.Works m now
        · obtain ⟨now, hw⟩ := hw
          exact (hlowers hm hw).le
        · exact hothers m (hnot m hm) (not_exists.mp hw)
    obtain ⟨m, hm, hstep⟩ := hfair n
    rcases hstep with ⟨now, hw⟩ | hwaits
    · obtain ⟨N, hN, hgoal⟩ := ih _ (lt_of_lt_of_le (hlowers hm hw) (hle hm)) (m + 1) rfl
      exact hnever ⟨N, by omega, hgoal⟩
    · obtain ⟨now, hready⟩ := hready m (hnot m hm)
      exact hwaits now hready

/-- With a step of the consumer, the attempts go on as planned, and the rank is lowered. -/
theorem Stands.works (h : x.Stands t n) {now : Moment} (hw : x.Works n now)
    (htries : t.delays.length < 0xFFFFFFFF) (hfits : t.Measures (x.state n).consumer)
    (hserved : (x.state n).consumer.isServed (x.state n).surroundings now)
    (hgoverns : t.governs (x.tries t.event n) (x.state n).consumer (x.state n).projection now) :
    x.Stands t (n + 1) ∧ x.rank t (n + 1) < x.rank t n := by
  obtain ⟨hstate, hattempt⟩ := hw.succ
  obtain ⟨rest, hleft, hphase, hrank⟩ := h.phase.step (x.state n).projection now htries hfits hw.2
    hserved hgoverns
  rw [← hattempt] at hleft hphase
  have hsplit : x.attempts (n + 1) ++ rest = t.whole := by
    rw [attempts, List.append_assoc, ← hleft, h.split]
  have hrest := left_eq hsplit
  refine ⟨⟨hrest.symm ▸ hsplit, ?_⟩, ?_⟩
  · rw [hrest, tries, attempts, List.countP_append, hstate]
    exact hphase
  · rw [rank, hrest, hstate]
    exact hrank

/-- With a move of others, everything stays. -/
theorem Stands.others (h : x.Stands t n)
    (hquiet : ∀ f, x.move n = .elsewhere f →
      Quiet t.shard (x.state n).surroundings (f (x.state n).surroundings))
    (hw : ∀ now, ¬ x.Works n now) : x.Stands t (n + 1) ∧ x.rank t (n + 1) = x.rank t n := by
  obtain ⟨hconsumer, hquiet, hattempt⟩ := quiet_of_not_works hquiet hw
  have hattempts : x.attempts (n + 1) = x.attempts n := by simp [attempts, hattempt]
  have hleft : x.left t (n + 1) = x.left t n := by rw [left, left, hattempts]
  refine ⟨⟨?_, ?_⟩, ?_⟩
  · rw [hattempts, hleft, h.split]
  · rw [hleft, hconsumer, tries, hattempts]
    exact h.phase.quiet hquiet
  · rw [rank, rank, hleft, hconsumer, hquiet.row]

/-- A course of a trial begins with the whole plan left. -/
theorem Undergoes.stands_zero (hx : x.Undergoes t) : x.Stands t 0 := by
  have hplaced : t.Placed t.start := by
    obtain ⟨-, hstart, hmark⟩ := Trial.mem_ahead.mp hx.ahead
    exact ⟨le_rfl, le_trans hstart.le hmark, .inl rfl⟩
  have hbetween : t.Between x.start.surroundings t.start 0 0 :=
    ⟨hx.holds, hplaced, .start hx.ahead, fun _ => rfl⟩
  exact .start hx.identity hx.fresh hbetween

/-- With a step of the consumer, the attempts go on as planned, and the rank is lowered. -/
theorem Undergoes.stands_works (hx : x.Undergoes t) (hb : t.Bounded) (h : x.Stands t n)
    {now : Moment} (hw : x.Works n now) : x.Stands t (n + 1) ∧ x.rank t (n + 1) < x.rank t n :=
  h.works hw hb.tries (h.phase.measures hb) (hx.served n now hw) (hx.governs n now hw)

/-- The attempts made on a course of a trial are always the beginning of the plan. -/
theorem Undergoes.stands (hx : x.Undergoes t) (hb : t.Bounded) (n : ℕ) : x.Stands t n := by
  induction n with
  | zero => exact hx.stands_zero
  | succ n ih =>
    by_cases hw : ∃ now, x.Works n now
    · obtain ⟨now, hw⟩ := hw
      exact (hx.stands_works hb ih hw).1
    · exact (ih.others (hx.quiet n) (not_exists.mp hw)).1

/-- A consumer that has nothing to do by itself stays so. -/
theorem over_of_le
    (hquiet : ∀ n f, x.move n = .elsewhere f →
      Quiet t.shard (x.state n).surroundings (f (x.state n).surroundings))
    (hstands : ∀ n, x.Stands t n) {N : ℕ} (h : Trial.Over (x.state N).consumer.stage) (n : ℕ)
    (hn : n ≥ N) : Trial.Over (x.state n).consumer.stage := by
  induction n, hn using Nat.le_induction with
  | base => exact h
  | succ n _ ih =>
    have hwaits := ((hstands n).phase.settled ih).2.2
    rw [(quiet_of_not_works (hquiet n) fun now hw => hwaits now hw.2).1]
    exact ih

/-- Every course of a trial comes to the end of the plan. -/
theorem Undergoes.exists_over (hx : x.Undergoes t) (hb : t.Bounded) (n : ℕ) :
    ∃ N ≥ n, Trial.Over (x.state N).consumer.stage :=
  exists_reached (x.rank t) hx.fair (fun n hover => (hx.stands hb n).phase.ready hover)
    (fun n _ _ _ hw => (hx.stands_works hb (hx.stands hb n) hw).2)
    (fun n _ hw => ((hx.stands hb n).others (hx.quiet n) hw).2.le) n

/-- In the end, what was planned has been done, and the shard has settled. -/
theorem Undergoes.settles (hx : x.Undergoes t) (hb : t.Bounded) :
    ∃ N, ∀ n ≥ N, x.attempts n = t.whole ∧ t.Settled (x.state n).consumer (x.state n).surroundings
    := by
  obtain ⟨N, -, hover⟩ := hx.exists_over hb 0
  refine ⟨N, fun n hn => ?_⟩
  have hstands := hx.stands hb n
  have hover := over_of_le hx.quiet (hx.stands hb) hover n hn
  obtain ⟨hleft, hsettled, -⟩ := hstands.phase.settled hover
  have hsplit := hstands.split
  rw [hleft, List.append_nil] at hsplit
  exact ⟨hsplit, hsettled⟩

/-! ## Waits -/

omit [LawfulLog L] in
/-- A consumer begins to wait when it is to retry later. -/
theorem Works.backingOff {now : Moment} {d : Duration} (hw : x.Works n now)
    (h : x.attempt n = some (.rests d)) :
    ∃ i, (x.state (n + 1)).consumer.stage = .backingOff i (now.wake d) := by
  obtain ⟨hstate, hattempt⟩ := hw.succ
  rw [hattempt, Consumer.attempt] at h
  split at h
  · next batch due hstage =>
    obtain ⟨e, -, he⟩ := Option.map_eq_some_iff.mp h
    cases he
  · next i d' hstage =>
    split_ifs at h with hshutdown
    obtain rfl : d' = d := by simpa using h
    refine ⟨i, ?_⟩
    rw [hstate, ShardTask.step]
    simp only [Consumer.step, hstage, Consumer.stepAside, Consumer.act, hshutdown,
      Bool.false_eq_true, if_false]
    rfl
  · cases h

/-- After a consumer has begun to wait, it takes no step before the wait is over. -/
theorem Undergoes.wake_le (hx : x.Undergoes t) (hb : t.Bounded) {m : ℕ} {now now' : Moment}
    {d : Duration} (hmn : m < n) (hm : x.Works m now) (hd : x.attempt m = some (.rests d))
    (hn : x.Works n now') : now.wake d ≤ now' := by
  -- Either it still waits, or it took a step before, when the wait was over.
  have hstill (k : ℕ) (hk : m + 1 ≤ k) :
      (∃ i, (x.state k).consumer.stage = .backingOff i (now.wake d)) ∨
        ∃ j < k, ∃ past, x.Works j past ∧ now.wake d ≤ past := by
    induction k, hk using Nat.le_induction with
    | base => exact .inl (hm.backingOff hd)
    | succ k _ ih =>
      rcases ih with ⟨i, hstage⟩ | ⟨j, hj, past, hw, hpast⟩
      · by_cases hw : ∃ past, x.Works k past
        · obtain ⟨past, hw⟩ := hw
          exact .inr ⟨k, Nat.lt_succ_self k, past, hw, (hx.stands hb k).phase.due_le hstage hw.2⟩
        · obtain ⟨hconsumer, -⟩ := quiet_of_not_works (hx.quiet k) (not_exists.mp hw)
          exact .inl ⟨i, by rw [hconsumer]; exact hstage⟩
      · exact .inr ⟨j, hj.trans (Nat.lt_succ_self k), past, hw, hpast⟩
  rcases hstill n hmn with ⟨i, hstage⟩ | ⟨j, hj, past, hw, hpast⟩
  · exact (hx.stands hb n).phase.due_le hstage hn.2
  · exact hpast.trans (hx.clock j n past now' hj.le hw.1 hn.1)

/-! ## Chains -/

/-- On every course of a trial, the events before the event of the trial are applied once each. If
the event then fails more often than there are delays, it is tried once before and once after each
delay in turn, and the shard ends stopped with the last position before the event on record. If it
fails less often, it is applied at the try after its failures, and so are all events behind it once
each, until the mark is on record and no failures are counted. No step is taken in the time of a
wait. -/
theorem walks_chain (hx : x.Undergoes t) (hb : t.Bounded) :
    ((t.delays.length : ℕ∞) < t.failures → ∃ N, ∀ n ≥ N,
      x.attempts n = once t.before ++ (walk t.event t.delays ++ [.tries t.event false]) ∧
        (x.state n).consumer.stage = .ended ∧
          ((x.state n).surroundings.Reads t.shard fun h => h.status = .stopped) ∧
            IsGreatest (insert t.start {p | ∃ e ∈ t.events, e.sequence = p ∧ p < t.event.sequence})
              ((x.state n).surroundings.row t.shard)) ∧
    (∀ j : ℕ, t.failures = j → j ≤ t.delays.length → ∃ N, ∀ n ≥ N,
      x.attempts n =
          once t.before ++ (walk t.event (t.delays.take j) ++ once (t.event :: t.behind)) ∧
        (x.state n).consumer.stage = .idle ∧
          (x.state n).surroundings.row t.shard = t.mark.value ∧
            (x.state n).surroundings.Reads t.shard fun h => h.attempts = 0) ∧
    ∀ m n now now' d, m < n → x.Works m now → x.attempt m = some (.rests d) → x.Works n now' →
      now.wake d ≤ now' := by
  obtain ⟨N, hsettles⟩ := hx.settles hb
  refine ⟨fun hfails => ⟨N, fun n hn => ?_⟩, fun j hj hle => ⟨N, fun n hn => ?_⟩,
    fun m n now now' d hmn hm hd hw => hx.wake_le hb hmn hm hd hw⟩
  · obtain ⟨hattempts, hsettled⟩ := hsettles n hn
    cases hsettled with
    | rests _ hpasses => exact absurd hfails (not_lt.mpr hpasses)
    | ends hstage _ hstatus hplaced hnext =>
      obtain ⟨es, hnext⟩ := hnext
      exact ⟨hattempts.trans (Trial.whole_of_fails hx.ahead hfails), hstage, hstatus,
        hplaced.isGreatest hnext⟩
  · obtain ⟨hattempts, hsettled⟩ := hsettles n hn
    cases hsettled with
    | rests hstage _ hrow hcounted =>
      exact ⟨hattempts.trans (Trial.whole_of_passes hx.ahead hj hle), hstage, hrow, hcounted⟩
    | ends _ hfails => exact absurd hfails (not_lt.mpr (hj.le.trans (by exact_mod_cast hle)))

/-! ## Rehearsals -/

/-- The course on which the consumer takes a step at each of some moments, and nothing happens
afterwards. -/
def ofMoments (start : ShardTask L π) (times : List Moment) : ShardCourse L π :=
  ⟨start, fun n => (times[n]?).elim (.elsewhere id) .work⟩

section

omit [EventLog L] [LawfulLog L] [Projection π]

variable {start : ShardTask L π} {times : List Moment}

/-- Once its moments are over, the consumer takes no step on such a course any more. -/
theorem move_ofMoments (hn : n ≥ times.length) :
    (ofMoments start times).move n = .elsewhere id := by
  simp [ofMoments, List.getElem?_eq_none hn]

/-- The consumer takes the steps of such a course at its moments. -/
theorem getElem_of_move_ofMoments {now : Moment} (h : (ofMoments start times).move n = .work now) :
    ∃ hn : n < times.length, times[n] = now := by
  refine List.getElem?_eq_some_iff.mp ?_
  cases htime : times[n]? with
  | none => simp [ofMoments, htime] at h
  | some past => simpa [ofMoments, htime] using h

/-- Others do nothing on such a course. -/
theorem eq_id_of_move_ofMoments {f : Surroundings L → Surroundings L}
    (h : (ofMoments start times).move n = .elsewhere f) : f = id := by
  cases htime : times[n]? with
  | none => simpa [ofMoments, htime, eq_comm] using h
  | some past => simp [ofMoments, htime] at h

variable [EventLog L] [Projection π]

/-- Once its moments are over, such a course stays where it is. -/
theorem state_ofMoments (hn : n ≥ times.length) :
    (ofMoments start times).state n = (ofMoments start times).state times.length := by
  induction n, hn using Nat.le_induction with
  | base => rfl
  | succ n hn ih =>
    rw [state, move_ofMoments hn, ← ih]
    rfl

/-- Once its moments are over, nothing is done on such a course any more. -/
theorem attempts_ofMoments (hn : n ≥ times.length) :
    (ofMoments start times).attempts n = (ofMoments start times).attempts times.length := by
  induction n, hn using Nat.le_induction with
  | base => rfl
  | succ n hn ih =>
    rw [attempts, attempt, move_ofMoments hn, ih]
    exact List.append_nil _

end

/-- Whether such a course is one of a trial shows at its moments. -/
theorem undergoes_ofMoments {start : ShardTask L π} {times : List Moment} (t : Trial)
    (hidentity : start.consumer.identity = t.shard) (hfresh : start.Fresh)
    (hholds : t.Holds start.surroundings t.start 0) (hahead : t.event ∈ t.ahead t.start)
    (hsorted : times.Pairwise (· ≤ ·))
    (hsteps : ∀ n (hn : n < times.length),
      let u := (ofMoments start times).state n
      u.consumer.isServed u.surroundings times[n] ∧
        t.governs ((ofMoments start times).tries t.event n) u.consumer u.projection times[n])
    (hends : ∀ now, ((ofMoments start times).state times.length).wait now ≠ .ready) :
    (ofMoments start times).Undergoes t := by
  refine ⟨hidentity, hfresh, hholds, hahead, fun n f hf => ?_, fun m n now now' hmn hm hn => ?_,
    fun n now hw => ?_, fun n now hw => ?_, fun n => ⟨max n times.length, le_max_left _ _, .inr ?_⟩⟩
  · obtain rfl := eq_id_of_move_ofMoments hf
    exact .refl _ _
  · obtain ⟨hm', rfl⟩ := getElem_of_move_ofMoments hm
    obtain ⟨hn', rfl⟩ := getElem_of_move_ofMoments hn
    rcases hmn.lt_or_eq with hlt | rfl
    · exact List.pairwise_iff_getElem.mp hsorted m n hm' hn' hlt
    · exact le_rfl
  · obtain ⟨hn, rfl⟩ := getElem_of_move_ofMoments hw.1
    exact (hsteps n hn).1
  · obtain ⟨hn, rfl⟩ := getElem_of_move_ofMoments hw.1
    exact (hsteps n hn).2
  · rw [state_ofMoments (le_max_right n times.length)]
    exact hends

end ShardCourse

/-- A trial of the rehearsal in which the second of the three events always fails, and is retried
after 10 ms and after 20 ms. -/
def Trial.rehearsal : Trial where
  shard := "T:All"
  mark := ⟨3, 1⟩
  control := ⟨.run, 0⟩
  policy := Policy.addRetries {} (.ofCategory .applyEvent) [.ofMillis 10, .ofMillis 20]
  batchSize := 10
  start := 0
  events := [1, 2, 3].map fun p => ⟨p, "", [], ⟨0, false⟩⟩
  event := ⟨2, "", [], ⟨0, false⟩⟩
  delays := [.ofMillis 10, .ofMillis 20]
  failures := ⊤
  ascending := by decide
  running := rfl

/-- In that rehearsal the event is tried three times, and the shard stops with the first event on
record. -/
theorem ShardCourse.walks_chain_in_rehearsal :
    let t := Trial.rehearsal
    let x := ShardCourse.ofMoments
      (ShardTask.rehearsal [⟨2, .failure (.plain .arithmetic "poison"), none⟩] t.policy)
      (List.replicate 8 0 ++ List.replicate 5 10000000 ++ List.replicate 5 30000000)
    ∃ N, ∀ n ≥ N,
      x.attempts n = once t.before ++ (walk t.event t.delays ++ [.tries t.event false]) ∧
        (x.state n).consumer.stage = .ended ∧
          IsGreatest (insert t.start {p | ∃ e ∈ t.events, e.sequence = p ∧ p < t.event.sequence})
            ((x.state n).surroundings.row t.shard) := by
  intro t x
  have hx : x.Undergoes t := by
    refine ShardCourse.undergoes_ofMoments t rfl (ShardTask.rehearsal_fresh _ _) ?_ ?_ ?_ ?_ ?_
    · refine ⟨(ShardTask.rehearsal_fresh _ _).kept, fun p => rfl, rfl, rfl, rfl, rfl, rfl,
        ⟨_, rfl, rfl, rfl⟩⟩
    · decide +kernel
    · decide +kernel
    · decide +kernel
    · exact Consumer.wait_ne_ready_of_isOver (by decide +kernel)
  obtain ⟨N, hN⟩ := (ShardCourse.walks_chain hx ⟨by decide, by decide⟩).1 (by decide)
  exact ⟨N, fun n hn => ⟨(hN n hn).1, (hN n hn).2.1, (hN n hn).2.2.2⟩⟩

/-- A trial with an event before the one that fails, and with the last position as its mark. -/
def Trial.tooFar : Trial where
  shard := "T:All"
  mark := ⟨Position.last, 1⟩
  control := ⟨.run, 0⟩
  policy := Policy.addRetries {} (.ofCategory .applyEvent) [.ofMillis 10]
  batchSize := 1
  start := -5
  events := [-3, 1].map fun p => ⟨p, "", [], ⟨0, false⟩⟩
  event := ⟨1, "", [], ⟨0, false⟩⟩
  delays := [.ofMillis 10]
  failures := ⊤
  ascending := by decide
  running := rfl

/-- The shard of that trial. -/
def ShardTask.tooFar : ShardTask MemoryLog Rehearsal.ScriptedProjection where
  consumer := { identity := "T:All" }
  projection := { name := "T", plan := [⟨1, .failure (.plain .arithmetic "poison"), none⟩] }
  surroundings :=
    { commons :=
        { log :=
            { highest := 1
              events := [-3, 1].map fun p => (p, ⟨"", [], ⟨0, false⟩, false⟩)
              progress := ⟨[⟨"T:All", -5, none⟩]⟩ }
          tracker := { mark := ⟨Position.last, 1⟩ }
          origin := ⟨0, false⟩ }
      supervisor :=
        { policy := Trial.tooFar.policy, shards := .ofNames [.whole "T"], commands := default }
      batchSize := 1
      shutdown := false }

/-- A shard that records its progress too far below the mark crashes when it measures how far: the
event that fails, and is to be retried, is never tried, and the shard goes on saying that it is
running. -/
theorem ShardCourse.exists_crash :
    ∃ (x : ShardCourse MemoryLog Rehearsal.ScriptedProjection) (t : Trial),
      x.Undergoes t ∧ t.delays.length < 0xFFFFFFFF ∧ t.failures = ⊤ ∧
        (∀ n, x.tries t.event n = 0) ∧ ∀ n ≥ 5, (x.state n).consumer.isOver = true ∧
          ((x.state n).surroundings.handle t.shard).status = .running := by
  let times : List Moment := [0, 0, 0, 0, 0]
  let x := ShardCourse.ofMoments ShardTask.tooFar times
  have hkept : Kept ShardTask.tooFar.surroundings.commons.log := by
    simp [Kept, ShardTask.tooFar, MemoryLog.Ascending]
  have hover : (x.state 5).consumer.isOver = true := by decide +kernel
  have hstatus : ((x.state 5).surroundings.handle "T:All").status = .running := by decide +kernel
  have hnone : ∀ n ≤ 5, x.tries Trial.tooFar.event n = 0 := by decide +kernel
  refine ⟨x, .tooFar, ShardCourse.undergoes_ofMoments .tooFar rfl ?_ ?_ ?_ ?_ ?_ ?_, by decide, rfl,
    fun n => ?_, fun n hn => ?_⟩
  · exact ⟨rfl, rfl, hkept⟩
  · exact ⟨hkept, fun p => rfl, rfl, rfl, rfl, rfl, by decide +kernel, ⟨_, rfl, rfl, rfl⟩⟩
  · decide +kernel
  · decide +kernel
  · decide +kernel
  · exact Consumer.wait_ne_ready_of_isOver hover
  · rcases le_total n 5 with hle | hge
    · exact hnone n hle
    · have hattempts : x.attempts n = x.attempts 5 := ShardCourse.attempts_ofMoments hge
      rw [ShardCourse.tries, hattempts]
      exact hnone 5 le_rfl
  · have hstate : x.state n = x.state 5 := ShardCourse.state_ofMoments hn
    rw [hstate]
    exact ⟨hover, hstatus⟩

end Tidemark
