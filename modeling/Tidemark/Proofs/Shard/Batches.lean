import Tidemark.Proofs.Shard.Chain

/-!
# Batch after batch up to the mark

A shard has events ahead of it, its mark stands still, and nothing fails (`ShardCourse.Smooth`).
Then it completes one batch after the other, each from where the one before has led (`Links`),
until it has come to the mark. A batch leads up to the mark or is full (`Trial.Fills`), so that
there is at most one more of them than full batches fit into the events ahead. The events are
applied once each in their order, however they are divided into batches.

Main statements:

* `ShardCourse.Smooth.reaches_mark`: all this, for shards whose distance to the mark after their
  first batch can be represented; all others crash with the end of their first batch on record.
* `ShardCourse.exists_smooth_crash`: a shard of the second kind.

Where nothing fails, a shard undergoes a trial without failures (`Smooth.trial`), whose phases say
where the consumer stands. How the batches fit what lies ahead (`Trial.Paced`) is kept by its steps,
which is read off their beats (`Trial.Phase.paced`).
-/

namespace Tidemark

open LogView
open Attempt (once)

variable {L π : Type}

/-! ## Completed batches -/

/-- Batches, each with the position from which it went and the one to which it has led, go upwards
one after the other from one position to another. -/
def Links : Position → List (Position × Position) → Position → Prop
  | p, [], q => q = p
  | p, b :: batches, q => b.1 = p ∧ p < b.2 ∧ Links b.2 batches q

/-- One more batch leads on from where the others have led. -/
theorem Links.append {p q r : Position} {batches : List (Position × Position)}
    (h : Links p batches q) (hqr : q < r) : Links p (batches ++ [(q, r)]) r := by
  induction batches generalizing p with
  | nil =>
    obtain rfl : q = p := h
    exact ⟨rfl, hqr, rfl⟩
  | cons b batches ih => exact ⟨h.1, h.2.1, ih h.2.2⟩

namespace ShardTask

variable [EventLog L] [Projection π]

/-- The batch that the next step of the consumer completes: where it began, and where it has led.
The consumer has been in the middle of a batch and knows its progress between batches. -/
def completed (u : ShardTask L π) (now : Moment) : Option (Position × Position) :=
  match u.consumer.posture, (u.step now).consumer.posture with
  | .busy b, .free (some p) => some (b.committed, p)
  | .busy b, .bound p _ => some (b.committed, p)
  | _, _ => none

/-- The batch that a move completes. -/
def batch (u : ShardTask L π) : ShardMove L → Option (Position × Position)
  | .work now => if u.wait now = .ready then u.completed now else none
  | .elsewhere _ => none

/-- A consumer that goes from a batch into a round has completed the batch. -/
theorem completed_of_rounds {u : ShardTask L π} {now : Moment} {b : Batch} {p mark : Position}
    (hbusy : u.consumer.posture = .busy b)
    (hrounds : Rounds mark (some p) (u.step now).consumer.posture) :
    u.completed now = some (b.committed, p) := by
  rw [completed, hbusy]
  generalize (u.step now).consumer.posture = q at hrounds
  cases hrounds with
  | rests => rfl
  | fetches hp =>
    obtain rfl := Option.some.inj hp
    rfl

end ShardTask

namespace ShardCourse

variable [EventLog L] [Projection π]

/-- The batches that were completed before a move, in order. -/
def batches (x : ShardCourse L π) : ℕ → List (Position × Position)
  | 0 => []
  | n + 1 => x.batches n ++ ((x.state n).batch (x.move n)).toList

variable {x : ShardCourse L π} {n : ℕ}

/-- What is completed with a step of the consumer. -/
theorem batches_of_works {now : Moment} (hw : x.Works n now) :
    x.batches (n + 1) = x.batches n ++ ((x.state n).completed now).toList := by
  rw [batches, hw.1, ShardTask.batch, if_pos hw.2]

/-- Nothing is completed with a move of others. -/
theorem batches_of_not_works (hw : ∀ now, ¬ x.Works n now) : x.batches (n + 1) = x.batches n := by
  have hbatch : (x.state n).batch (x.move n) = none := by
    cases hmove : x.move n with
    | work now => rw [ShardTask.batch, if_neg fun hready => hw now ⟨hmove, hready⟩]
    | elsewhere f => rfl
  rw [batches, hbatch, Option.toList_none, List.append_nil]

/-- A shard has a mark ahead of it that stands still, and nothing fails on its way. Others leave
alone what matters for the shard. -/
structure Smooth [LawfulLog L] (x : ShardCourse L π) : Prop where
  fresh : x.start.Fresh
  behind : x.start.row < x.start.mark
  shutdown : x.start.surroundings.shutdown = false
  running : x.start.surroundings.Instructed x.start.consumer.identity .run
  quiet : ∀ n f, x.move n = .elsewhere f →
    Quiet x.start.consumer.identity (x.state n).surroundings (f (x.state n).surroundings)
  /-- The log answers every call. -/
  served : ∀ n now, x.Works n now → (x.state n).consumer.isServed (x.state n).surroundings now
  /-- Every event that is handed to the projection is applied. -/
  applies : ∀ n e, x.attempt n ≠ some (.tries e false)
  /-- The consumer takes a step again and again, unless it waits for others alone. -/
  fair : ∀ n, ∃ m ≥ n, (∃ now, x.Works m now) ∨ ∀ now, (x.state m).wait now ≠ .ready

end ShardCourse

/-! ## Beats of batches -/

section

variable {mark : Position} {events : List EventRecord} {limit : ℕ} {q q' : Posture}
  {r r' : Position}

/-- A consumer that goes into a round has no batch under way. -/
theorem Rounds.ne_busy {position : Option Position} (h : Rounds mark position q) (b : Batch) :
    q ≠ .busy b := by
  cases h <;> nofun

namespace Beat

/-- A consumer that does not know its progress begins no batch. -/
theorem of_free (h : Beat mark events limit (.free none) r none q' r') :
    r' = r ∧ ∀ b, q' ≠ .busy b := by
  cases h with
  | rounds h => exact ⟨rfl, h.ne_busy⟩
  | loads h => exact ⟨rfl, h.ne_busy⟩
  | crashes => exact ⟨rfl, nofun⟩

/-- A consumer that begins a batch has fetched its events. -/
theorem of_began {c m : Position}
    (h : Beat mark events limit (.bound c m) r (some (.began c)) q' r') :
    r' = r ∧ ∃ begun es, es = (eventsWithin c m events).take limit ∧
      q' = .busy { committed := c, mark := m, begun := begun, events := es,
                   target := Consumer.target es limit m, handled := c } := by
  cases h with
  | begins hes => exact ⟨rfl, _, _, hes, rfl⟩

/-- A batch of which an event has been applied goes on as before. -/
theorem of_applied {b : Batch} {e : EventRecord} {m : Position}
    (h : Beat mark events limit (.busy b) r (some (.tried e m true)) q' r') :
    r' = r ∧ ∃ b', q' = .busy b' ∧ b'.committed = b.committed ∧ b'.target = b.target := by
  cases h with
  | applies => exact ⟨rfl, _, rfl, rfl, rfl⟩

end Beat

end

/-! ## Where batches lead -/

namespace Trial

variable (t : Trial)

/-- The most events that are fetched at a time. -/
def limit : ℕ := max t.batchSize 1

/-- Where the first batch leads. -/
def firstEnd : Position := Consumer.target ((t.ahead t.start).take t.limit) t.limit t.mark.value

/-- A batch leads up to the mark, or it is full. -/
def Fills (b : Batch) : Prop :=
  b.target = t.mark.value ∨ (t.ahead b.committed).length = t.limit + (t.ahead b.target).length

/-- How the batches completed so far fit the progress on record and the batch that is under way. -/
structure Paced (done : List (Position × Position)) (r : Position) (q : Posture) : Prop where
  links : Links t.start done r
  le_mark : r ≤ t.mark.value
  /-- Before the mark is reached, all batches have been full. -/
  full : r < t.mark.value →
    done.length * t.limit + (t.ahead r).length = (t.ahead t.start).length
  few : done.length ≤ (t.ahead t.start).length / t.limit + 1
  measured : done ≠ [] → t.firstEnd ≤ r ∧ Position.Fits (t.mark.value - t.firstEnd)
  fills : ∀ b, q = .busy b → t.Fills b
  first : ∀ b, q = .busy b → done = [] → b.target = t.firstEnd

variable {t} {done : List (Position × Position)} {r : Position} {q q' : Posture}

/-- Where no batch is under way, only the progress matters. -/
theorem Paced.of_idle (h : t.Paced done r q) (hq : ∀ b, q' ≠ .busy b) : t.Paced done r q' :=
  { h with fills := fun b hb => absurd hb (hq b), first := fun b hb => absurd hb (hq b) }

/-- A batch is full when it is fetched, or leads up to the mark. -/
theorem fills_of_fetched {b : Batch} {es : List EventRecord} (hplaced : t.Placed b.committed)
    (hmark : b.committed < t.mark.value) (hes : es = (t.ahead b.committed).take t.limit)
    (htarget : b.target = Consumer.target es t.limit t.mark.value) : t.Fills b := by
  have hlimit : 0 < t.limit := lt_max_of_lt_right Nat.one_pos
  obtain ⟨hsplit, -, -⟩ := ahead_of_fetched hlimit hplaced hmark hes
  have hascending : es.Pairwise (·.sequence < ·.sequence) :=
    hes ▸ (t.ahead_pairwise b.committed).sublist (List.take_sublist _ _)
  have hbelow : ∀ e ∈ es, e.sequence ≤ t.mark.value := fun e he =>
    (mem_ahead.mp (List.mem_of_mem_take (hes ▸ he))).2.2
  rw [Fills, htarget]
  rcases (Consumer.target_spec t.limit hascending hbelow).2.2 with heq | ⟨hfull, -⟩
  · exact .inl heq
  · -- No more than a full batch is fetched.
    have hlength : es.length = t.limit :=
      le_antisymm (hes ▸ List.length_take_le _ _) hfull
    refine .inr ?_
    calc (t.ahead b.committed).length
        = (es ++ t.ahead (Consumer.target es t.limit t.mark.value)).length :=
          congrArg List.length hsplit
      _ = t.limit + (t.ahead (Consumer.target es t.limit t.mark.value)).length := by
          rw [List.length_append, hlength]

/-- A batch has been fetched. -/
theorem Paced.fetched {b : Batch} (h : t.Paced done r q) (hplaced : t.Placed r)
    (hmark : r < t.mark.value) (hr : b.committed = r) {es : List EventRecord}
    (hes : es = (t.ahead r).take t.limit)
    (htarget : b.target = Consumer.target es t.limit t.mark.value) :
    t.Paced done r (.busy b) := by
  subst hr
  refine { h with fills := fun b' hb => ?_, first := fun b' hb hdone => ?_ }
  · cases hb
    exact fills_of_fetched hplaced hmark hes htarget
  · -- No batch has led anywhere, so that this is the first one.
    cases hb
    subst hdone
    have hstart : b.committed = t.start := h.links
    rw [htarget, hes, hstart, firstEnd]

/-- A batch goes on. -/
theorem Paced.goesOn {b b' : Batch} (h : t.Paced done r (.busy b))
    (hcommitted : b'.committed = b.committed) (htarget : b'.target = b.target) :
    t.Paced done r (.busy b') := by
  refine { h with fills := fun x hx => ?_, first := fun x hx hdone => ?_ }
  · cases hx
    have hfills := h.fills b rfl
    rwa [Fills, ← hcommitted, ← htarget] at hfills
  · cases hx
    rw [htarget]
    exact h.first b rfl hdone

/-- Whether how far the mark lies above the end of a batch can be represented depends on the first
batch alone. -/
theorem Paced.fits_iff {b : Batch} (h : t.Paced done r (.busy b)) (hgrows : r < b.target)
    (hmark : b.target ≤ t.mark.value) :
    Position.Fits (t.mark.value - b.target) ↔ Position.Fits (t.mark.value - t.firstEnd) := by
  by_cases hdone : done = []
  · rw [h.first b rfl hdone]
  · obtain ⟨hle, hfits⟩ := h.measured hdone
    exact iff_of_true (hfits.sub_of_le (le_trans hle hgrows.le) hmark) hfits

/-- A batch has been completed. -/
theorem Paced.completed {b : Batch} (h : t.Paced done r (.busy b)) (hgrows : r < b.target)
    (hr : b.committed = r) (hmark : b.target ≤ t.mark.value)
    (hfits : Position.Fits (t.mark.value - b.target)) (hq : ∀ b', q ≠ .busy b') :
    t.Paced (done ++ [(b.committed, b.target)]) b.target q := by
  subst hr
  have hlimit : 0 < t.limit := lt_max_of_lt_right Nat.one_pos
  have hbefore := h.full (lt_of_lt_of_le hgrows hmark)
  refine ⟨h.links.append hgrows, hmark, fun hlt => ?_, ?_, fun _ => ⟨?_, ?_⟩,
    fun b' hb' => absurd hb' (hq b'), fun b' hb' => absurd hb' (hq b')⟩
  · -- A batch that ends below the mark is full, like all those before it.
    have hfull := (h.fills b rfl).resolve_left hlt.ne
    rw [List.length_append, List.length_singleton, Nat.succ_mul, Nat.add_assoc, ← hfull, hbefore]
  · -- Only the batches before this one need to have been full.
    have hfew : done.length ≤ (t.ahead t.start).length / t.limit :=
      (Nat.le_div_iff_mul_le hlimit).mpr (hbefore ▸ Nat.le_add_right _ _)
    simpa using hfew
  · by_cases hdone : done = []
    · rw [h.first b rfl hdone]
    · exact le_trans (h.measured hdone).1 hgrows.le
  · exact (h.fits_iff hgrows hmark).mp hfits

/-! ## Steps -/

section

variable [EventLog L] [LawfulLog L] [Projection π] {u : ShardTask L π} {now : Moment}

/-- What holds after a step of the consumer, which may have completed a batch. -/
def PacedAfter (t : Trial) (done : List (Position × Position)) (u : ShardTask L π)
    (now : Moment) : Prop :=
  t.Paced (done ++ (u.completed now).toList) ((u.step now).surroundings.row t.shard)
    (u.step now).consumer.posture

/-- Where the progress on record stays, and no batch is completed. -/
theorem Paced.after (h : t.Paced done (u.surroundings.row t.shard) (u.step now).consumer.posture)
    (hrow : (u.step now).surroundings.row t.shard = u.surroundings.row t.shard)
    (hcompleted : u.completed now = none) : t.PacedAfter done u now := by
  rw [PacedAfter, hcompleted, hrow, Option.toList_none, List.append_nil]
  exact h

variable (h : t.Paced done (u.surroundings.row t.shard) u.consumer.posture)
  (hidentity : u.consumer.identity = t.shard)
  (hmoves : Moves u.consumer u.surroundings (u.deed now) (u.step now).consumer
    (u.step now).surroundings)
include h hidentity hmoves

/-- A consumer that does not know its progress completes no batch. -/
theorem Paced.step_free (hposture : u.consumer.posture = .free none) (hdeed : u.deed now = none) :
    t.PacedAfter done u now := by
  have hbeat := hmoves.beat
  rw [hposture, hdeed, hidentity] at hbeat
  obtain ⟨hrow, hne⟩ := hbeat.of_free
  refine (h.of_idle hne).after hrow ?_
  rw [ShardTask.completed, hposture]

/-- A consumer fetches a batch. -/
theorem Paced.step_bound {r : Position} {counted : ℕ} (hs : t.Holds u.surroundings r counted)
    (hplaced : t.Placed r) (hmark : r < t.mark.value)
    (hposture : u.consumer.posture = .bound r t.mark.value) (hdeed : u.deed now = some (.began r)) :
    t.PacedAfter done u now := by
  have hbeat := hmoves.beat
  rw [hposture, hdeed, hidentity, hs.batchSize] at hbeat
  obtain ⟨hrow, begun, es, hes, hbusy⟩ := hbeat.of_began
  rw [hs.events r] at hes
  refine Paced.after ?_ hrow ?_
  · rw [hs.row] at h ⊢
    rw [hbusy]
    exact h.fetched hplaced hmark rfl hes rfl
  · rw [ShardTask.completed, hposture, hbusy]

/-- A consumer applies an event of a batch. -/
theorem Paced.step_busy {b : Batch} (hposture : u.consumer.posture = .busy b)
    (hdeed : ∃ e m, u.deed now = some (.tried e m true)) : t.PacedAfter done u now := by
  obtain ⟨e, m, hdeed⟩ := hdeed
  have hbeat := hmoves.beat
  rw [hposture] at h
  rw [hposture, hdeed, hidentity] at hbeat
  obtain ⟨hrow, b', hbusy, hcommitted, htarget⟩ := hbeat.of_applied
  refine (hbusy ▸ h.goesOn hcommitted htarget : t.Paced _ _ _).after hrow ?_
  rw [ShardTask.completed, hposture, hbusy]

end

section

variable [EventLog L] [LawfulLog L] [Projection π] {p : π} {s : Surroundings L} {b : Batch}
  {counted n : ℕ} {seenMark seenControl : ℕ} {position : Option Position} {now : Moment}

/-- What has become of a consumer whose first batch has led too far below the mark. -/
structure Lost (t : Trial) (done : List (Position × Position)) (u : ShardTask L π) : Prop where
  far : ¬ Position.Fits (t.mark.value - t.firstEnd)
  stage : u.consumer.stage = .crashed
  row : u.surroundings.row t.shard = t.firstEnd
  done : done = []

/-- A consumer completes a batch, or it crashes after the first one. -/
theorem Paced.step_closing (hw : t.Within s b counted n) :
    let u : ShardTask L π := ⟨⟨t.shard, .closing b, seenMark, seenControl, position⟩, p, s⟩
    t.Paced done (s.row t.shard) (.busy b) → u.consumer.isServed s now →
      (t.Measures u.consumer ∧ t.PacedAfter done u now) ∨
        t.Lost (done ++ (u.completed now).toList) (u.step now) := by
  intro u h hserved
  rw [hw.holds.row] at h
  obtain ⟨s', hs', hstep⟩ := hw.closing_eq p now hserved
  obtain ⟨reset, hreset, hcommit⟩ := hw.commit_eq (c := u.consumer) rfl now hs'
  have hu : ((u.step now).consumer, (u.step now).surroundings) =
      u.consumer.commit s' now b b.target := hstep
  rw [hcommit] at hu
  by_cases hfits : Position.Fits (t.mark.value - b.target)
  · -- The consumer goes from the end of the batch into the next round.
    rw [if_pos hfits] at hu
    have hleads := Consumer.turn_leads { u.consumer with position := some b.target }
      (reset.announce t.shard .updated)
    rw [← hu] at hleads
    have hrow : (u.step now).surroundings.row t.shard = b.target :=
      hleads.keeps.row.trans (hreset.announce _).row
    refine .inl ⟨fun b' hb' => by cases hb'; exact hfits, ?_⟩
    rw [PacedAfter, ShardTask.completed_of_rounds rfl hleads.posture, hrow]
    exact h.completed hw.grows rfl hw.target.le_mark hfits hleads.posture.ne_busy
  · -- It crashes, which can happen after the first batch only: later ones lead closer to the mark.
    rw [if_neg hfits] at hu
    obtain ⟨hconsumer, hsurroundings⟩ := Prod.mk.inj hu
    have hfar := mt (h.fits_iff hw.grows hw.target.le_mark).mpr hfits
    have hdone : done = [] := by
      by_contra hdone
      exact hfar (h.measured hdone).2
    have hcompleted : u.completed now = none := by
      rw [ShardTask.completed, hconsumer]
      rfl
    refine .inr ⟨hfar, ?_, ?_, ?_⟩
    · rw [hconsumer]
      rfl
    · rw [hsurroundings, ← h.first b rfl hdone]
      exact (Surroundings.keeps_leave _ _).row.trans hreset.row
    · rw [hcompleted, hdone]
      rfl

omit [EventLog L] [LawfulLog L] in
/-- Where every event is applied, the projection does what a trial without failures expects. -/
theorem governs_of_applies {c : Consumer} (hzero : t.failures = 0)
    (happlies : ∀ e, c.attempt p s now ≠ some (.tries e false)) : t.governs n c p now := by
  unfold governs
  split
  · next b due hstage =>
    cases hes : b.events with
    | nil => rfl
    | cons e es =>
      have hok := happlies e
      simp only [Consumer.attempt, hstage, hes, List.head?_cons, Option.map_some] at hok
      cases hresult : (Projection.apply p e now).1 <;>
        simp_all [expects, Trial.fails, Applied.isOk]
  · rfl

/-- A consumer whose events are all applied goes on batch after batch, or it crashes after the first
one. -/
theorem Phase.paced {u : ShardTask L π} {left : List Attempt} (hzero : t.failures = 0)
    (h : t.Phase u.consumer u.surroundings n left) (hready : u.wait now = .ready)
    (hserved : u.consumer.isServed u.surroundings now)
    (happlies : ∀ e, u.consumer.attempt u.projection u.surroundings now ≠ some (.tries e false))
    (hp : t.Paced done (u.surroundings.row t.shard) u.consumer.posture) :
    (t.Measures u.consumer ∧ t.PacedAfter done u now) ∨
      t.Lost (done ++ (u.completed now).toList) (u.step now) := by
  -- The phases that follow a failure do not occur.
  have hnever {q : Position} {m : ℕ} (hf : t.Failed q m) : False := by
    have hfails := hf.fails
    simp [Trial.fails, hzero] at hfails
  obtain ⟨c, p, s⟩ := u
  have hmoves := Consumer.step_moves (c := c) p s now
  cases h with
  | opens h => exact .inl ⟨by rintro _ ⟨⟩, hp.step_free rfl (hmoves trivial h.holds.kept) rfl rfl⟩
  | loads h => exact .inl ⟨by rintro _ ⟨⟩, hp.step_free rfl (hmoves rfl h.holds.kept) rfl rfl⟩
  | fetches h hmark =>
    obtain ⟨es, s₁, hcall⟩ := Surroundings.call_of_isOk hserved
    refine .inl ⟨by rintro _ ⟨⟩, ?_⟩
    refine hp.step_bound rfl (hmoves rfl h.holds.kept) h.holds h.placed hmark rfl ?_
    simp only [ShardTask.deed, Consumer.deed, hcall]
  | @applies _ _ _ _ b due _ _ h hne =>
    obtain ⟨e, es, hes⟩ := List.exists_cons_of_ne_nil hne
    have hok : (Projection.apply p e now).1.isOk = true := by
      simpa [Consumer.attempt, hes] using happlies e
    refine .inl ⟨by rintro _ ⟨⟩, ?_⟩
    refine hp.step_busy rfl (hmoves trivial h.holds.kept) rfl ⟨e, s.mark, ?_⟩
    simp only [ShardTask.deed, Consumer.deed, hes, List.head?_cons, Option.map_some, hok]
  | closes h hes => exact Paced.step_closing h hp hserved
  | saves hs hf => exact (hnever hf).elim
  | fails hs hf => exact (hnever hf).elim
  | resolves hs hf => exact (hnever hf).elim
  | waits hs hf => exact (hnever hf).elim
  | ends hstatus hf => exact (hnever hf).elim
  | rests hs hpasses =>
    obtain ⟨-, -, hwaits⟩ := (Phase.rests (n := n) hs hpasses).settled (.inl rfl)
    exact absurd hready (hwaits now)

end

end Trial

/-! ## Smooth courses -/

namespace ShardCourse

variable [EventLog L] [LawfulLog L] [Projection π] {x : ShardCourse L π} {n : ℕ}

namespace Smooth

/-- The trial without failures that the shard of a smooth course undergoes. Its event is none of
those ahead. -/
def trial (hx : x.Smooth) : Trial where
  shard := x.start.consumer.identity
  mark := x.start.surroundings.commons.tracker.mark
  control := (x.start.surroundings.handle x.start.consumer.identity).control
  policy := x.start.surroundings.supervisor.policy
  batchSize := x.start.surroundings.batchSize
  start := x.start.row
  events := x.start.events
  event := ⟨x.start.row, "", [], ⟨0, false⟩⟩
  delays := []
  failures := 0
  ascending := LawfulLog.stored_pairwise hx.fresh.kept
  running := hx.running.handle

/-- No event ahead is to fail. -/
theorem event_not_mem (hx : x.Smooth) (p : Position) (hp : x.start.row ≤ p) :
    hx.trial.event ∉ hx.trial.ahead p := fun h =>
  absurd (Trial.mem_ahead.mp h).2.1 (not_lt.mpr hp)

/-- What is to be done is to try every event ahead once. -/
theorem whole_eq (hx : x.Smooth) : hx.trial.whole = once (hx.trial.ahead x.start.row) :=
  Trial.plan_of_not_mem (hx.event_not_mem _ le_rfl)

/-- A smooth course begins with the whole plan left. -/
theorem stands_zero (hx : x.Smooth) : x.Stands hx.trial 0 := by
  obtain ⟨old, hfind, hrun⟩ := hx.running
  have hholds : hx.trial.Holds x.start.surroundings x.start.row old.attempts := by
    refine ⟨hx.fresh.kept, fun p => rfl, rfl, rfl, rfl, hx.shutdown, rfl, old, hfind, ?_, rfl⟩
    show old.control = (x.start.surroundings.handle x.start.consumer.identity).control
    rw [Surroundings.handle, hfind]
    rfl
  have hplaced : hx.trial.Placed x.start.row := ⟨le_rfl, hx.behind.le, .inl rfl⟩
  have htally : hx.trial.Tally (hx.trial.ahead x.start.row) x.start.row old.attempts 0 :=
    ⟨fun hmem => absurd hmem (hx.event_not_mem _ le_rfl), fun _ => zero_le⟩
  exact .start rfl hx.fresh
    ⟨hholds, hplaced, htally, fun hmark => absurd hx.behind (not_lt.mpr hmark)⟩

/-- A smooth course begins with no batch completed. -/
theorem paced_zero (hx : x.Smooth) :
    hx.trial.Paced [] x.start.row x.start.consumer.posture := by
  rw [hx.fresh.posture]
  exact ⟨rfl, hx.behind.le, fun _ => by simp [trial], Nat.zero_le _, nofun, nofun, nofun⟩

/-- Where the course is on its way: the attempts go on as planned, and so do the batches. -/
structure Underway (hx : x.Smooth) (n : ℕ) : Prop where
  stands : x.Stands hx.trial n
  paced : hx.trial.Paced (x.batches n)
    ((x.state n).surroundings.row x.start.consumer.identity) (x.state n).consumer.posture

variable {hx : x.Smooth}

/-- With a step of the consumer, the course goes on and the rank is lowered, or the consumer
crashes. -/
theorem Underway.works (h : hx.Underway n) {now : Moment} (hw : x.Works n now) :
    hx.Underway (n + 1) ∧ x.rank hx.trial (n + 1) < x.rank hx.trial n ∨
      hx.trial.Lost (x.batches (n + 1)) (x.state (n + 1)) := by
  obtain ⟨hstate, hattempt⟩ := hw.succ
  have happlies (e : EventRecord) := hattempt ▸ hx.applies n e
  rw [batches_of_works hw, hstate]
  rcases h.stands.phase.paced rfl hw.2 (hx.served n now hw) happlies h.paced with
    ⟨hfits, hpaced⟩ | hlost
  · have htries : hx.trial.delays.length < 0xFFFFFFFF := show [].length < _ by decide
    obtain ⟨hstands, hrank⟩ := h.stands.works hw htries hfits (hx.served n now hw)
      (Trial.governs_of_applies rfl happlies)
    refine .inl ⟨⟨hstands, ?_⟩, hrank⟩
    rw [batches_of_works hw, hstate]
    exact hpaced
  · exact .inr hlost

/-- With a move of others, everything stays. -/
theorem Underway.others (h : hx.Underway n) (hw : ∀ now, ¬ x.Works n now) :
    hx.Underway (n + 1) ∧ x.rank hx.trial (n + 1) = x.rank hx.trial n := by
  obtain ⟨hconsumer, hquiet, -⟩ := quiet_of_not_works (hx.quiet n) hw
  obtain ⟨hstands, hrank⟩ := h.stands.others (hx.quiet n) hw
  refine ⟨⟨hstands, ?_⟩, hrank⟩
  rw [batches_of_not_works hw, hconsumer, hquiet.row]
  exact h.paced

/-- A consumer that has crashed stays where it is. -/
theorem lost_succ (h : hx.trial.Lost (x.batches n) (x.state n)) :
    hx.trial.Lost (x.batches (n + 1)) (x.state (n + 1)) := by
  have hover : (x.state n).consumer.isOver = true := by simp [Consumer.isOver, h.stage]
  have hw (now : Moment) (hstep : x.Works n now) : False :=
    Consumer.wait_ne_ready_of_isOver hover now hstep.2
  obtain ⟨hconsumer, hquiet, -⟩ := quiet_of_not_works (hx.quiet n) hw
  refine ⟨h.far, hconsumer ▸ h.stage, hquiet.row.trans h.row, ?_⟩
  rw [batches_of_not_works hw, h.done]

/-- A smooth course is always on its way, unless its consumer has crashed after the first batch. -/
theorem underway_or_lost (hx : x.Smooth) (n : ℕ) :
    hx.Underway n ∨ hx.trial.Lost (x.batches n) (x.state n) := by
  induction n with
  | zero => exact .inl ⟨hx.stands_zero, hx.paced_zero⟩
  | succ n ih =>
    rcases ih with h | h
    · by_cases hw : ∃ now, x.Works n now
      · obtain ⟨now, hw⟩ := hw
        exact (h.works hw).imp_left And.left
      · exact .inl (h.others (not_exists.mp hw)).1
    · exact .inr (lost_succ h)

/-- A smooth course comes to an end: the consumer has nothing to do any more, or it has crashed. -/
theorem exists_end (hx : x.Smooth) :
    ∃ N, hx.Underway N ∧ Trial.Over (x.state N).consumer.stage ∨
      hx.trial.Lost (x.batches N) (x.state N) := by
  have hunderway {n : ℕ} (hnot : ¬ (hx.Underway n ∧ Trial.Over (x.state n).consumer.stage ∨
      hx.trial.Lost (x.batches n) (x.state n))) : hx.Underway n :=
    (hx.underway_or_lost n).resolve_right fun hlost => hnot (.inr hlost)
  obtain ⟨N, -, hend⟩ := exists_reached (x.rank hx.trial) hx.fair
    (fun n hnot => (hunderway hnot).stands.phase.ready fun hover =>
      hnot (.inl ⟨hunderway hnot, hover⟩))
    (fun n now hnot hnext hw => (((hunderway hnot).works hw).resolve_right fun hlost =>
      hnext (.inr hlost)).2)
    (fun n hnot hw => ((hunderway hnot).others hw).2.le) 0
  exact ⟨N, hend⟩

/-- A consumer that has crashed stays so for good. -/
theorem lost_of_le {N : ℕ} (h : hx.trial.Lost (x.batches N) (x.state N)) (n : ℕ) (hn : n ≥ N) :
    hx.trial.Lost (x.batches n) (x.state n) := by
  induction n, hn using Nat.le_induction with
  | base => exact h
  | succ n _ ih => exact lost_succ ih

/-- What has come of a shard that has reached its mark. -/
theorem Underway.reached (h : hx.Underway n) (hover : Trial.Over (x.state n).consumer.stage) :
    (x.state n).consumer.stage = .idle ∧
      (x.state n).surroundings.row x.start.consumer.identity = x.start.mark ∧
        Links x.start.row (x.batches n) x.start.mark ∧
          x.attempts n = once (eventsWithin x.start.row x.start.mark x.start.events) := by
  obtain ⟨hleft, hsettled, -⟩ := h.stands.phase.settled hover
  have hattempts := h.stands.split
  rw [hleft, List.append_nil, hx.whole_eq] at hattempts
  cases hsettled with
  | rests hstage _ hrow =>
    have hlinks := h.paced.links
    rw [show (x.state n).surroundings.row x.start.consumer.identity = x.start.mark from hrow]
      at hlinks
    exact ⟨hstage, hrow, hlinks, hattempts⟩
  | ends _ hfails => exact absurd hfails not_lt_zero

/-- A shard that has events ahead and whose calls do not fail completes one batch after the other:
each goes upwards from where the one before has led, to the mark at most, and there is at most one
more of them than full batches fit into the events ahead. If how far the mark lies above the end of
the first batch can be represented, the last batch leads to the mark, and by then all events ahead
have been applied once each in their order, whatever the size of the batches. If it cannot, the
consumer crashes when it has recorded that end. -/
theorem reaches_mark (hx : x.Smooth) :
    let shard := x.start.consumer.identity
    let mark := x.start.mark
    let due := eventsWithin x.start.row mark x.start.events
    let limit := max x.start.surroundings.batchSize 1
    let firstEnd := Consumer.target (due.take limit) limit mark
    due.Pairwise (·.sequence < ·.sequence) ∧
    (∀ n, (∃ p ≤ mark, Links x.start.row (x.batches n) p) ∧
      (x.batches n).length ≤ due.length / limit + 1) ∧
    (Position.Fits (mark - firstEnd) → ∃ N, ∀ n ≥ N,
      (x.state n).consumer.stage = .idle ∧ (x.state n).surroundings.row shard = mark ∧
        Links x.start.row (x.batches n) mark ∧ x.attempts n = once due) ∧
    (¬ Position.Fits (mark - firstEnd) → ∃ N, ∀ n ≥ N,
      (x.state n).consumer.stage = .crashed ∧ (x.state n).surroundings.row shard = firstEnd ∧
        x.batches n = []) := by
  intro shard mark due limit firstEnd
  -- The course ends in either way, and both ways of ending last.
  obtain ⟨N, hend⟩ := hx.exists_end
  refine ⟨hx.trial.ahead_pairwise _, fun n => ?_, fun hfits => ⟨N, fun n hn => ?_⟩,
    fun hfar => ⟨N, fun n hn => ?_⟩⟩
  · rcases hx.underway_or_lost n with h | h
    · exact ⟨⟨_, h.paced.le_mark, h.paced.links⟩, h.paced.few⟩
    · rw [h.done]
      exact ⟨⟨_, hx.behind.le, rfl⟩, Nat.zero_le _⟩
  · have hunderway (n : ℕ) : hx.Underway n :=
      (hx.underway_or_lost n).resolve_right fun h => h.far hfits
    rcases hend with ⟨-, hover⟩ | h
    · exact (hunderway n).reached
        (over_of_le hx.quiet (fun n => (hunderway n).stands) hover n hn)
    · exact absurd hfits h.far
  · rcases hend with ⟨h, hover⟩ | h
    · -- A shard that has reached its mark has completed a batch.
      have hdone : x.batches N ≠ [] := fun hdone => by
        have hlinks := (h.reached hover).2.2.1
        rw [hdone] at hlinks
        exact absurd hlinks hx.behind.ne'
      exact absurd (h.paced.measured hdone).2 hfar
    · obtain ⟨-, hstage, hrow, hdone⟩ := lost_of_le h n hn
      exact ⟨hstage, hrow, hdone⟩

end Smooth

/-! ## Rehearsals -/

omit [LawfulLog L] in
/-- What a move does about events is among what has been done later. -/
theorem mem_attempts {a : Attempt} {N : ℕ} (h : x.attempt n = some a) (hn : n < N) :
    a ∈ x.attempts N := by
  induction N, hn using Nat.le_induction with
  | base => simp [attempts, h]
  | succ N _ ih => exact List.mem_append_left _ ih

omit [LawfulLog L] in
/-- Once its moments are over, no batch is completed on such a course any more. -/
theorem batches_ofMoments {start : ShardTask L π} {times : List Moment} (hn : n ≥ times.length) :
    (ofMoments start times).batches n = (ofMoments start times).batches times.length := by
  induction n, hn using Nat.le_induction with
  | base => rfl
  | succ n hn ih =>
    rw [batches, move_ofMoments hn, ih]
    exact List.append_nil _

/-- Whether a course at some moments is smooth shows at the moments. -/
theorem smooth_ofMoments {start : ShardTask L π} {times : List Moment} (hfresh : start.Fresh)
    (hbehind : start.row < start.mark) (hshutdown : start.surroundings.shutdown = false)
    (hrunning : start.surroundings.Instructed start.consumer.identity .run)
    (hserved : ∀ n (hn : n < times.length),
      let u := (ofMoments start times).state n
      u.consumer.isServed u.surroundings times[n])
    (happlied : ∃ es, (ofMoments start times).attempts times.length = once es)
    (hends : ∀ now, ((ofMoments start times).state times.length).wait now ≠ .ready) :
    (ofMoments start times).Smooth := by
  refine ⟨hfresh, hbehind, hshutdown, hrunning, fun n f hf => ?_, fun n now hw => ?_,
    fun n e he => ?_, fun n => ⟨max n times.length, le_max_left _ _, .inr ?_⟩⟩
  · obtain rfl := eq_id_of_move_ofMoments hf
    exact .refl _ _
  · obtain ⟨hn, rfl⟩ := getElem_of_move_ofMoments hw.1
    exact hserved n hn
  · obtain ⟨es, hes⟩ := happlied
    rcases lt_or_ge n times.length with hn | hn
    · have hmem := mem_attempts he hn
      rw [hes] at hmem
      simp [once] at hmem
    · rw [attempt, move_ofMoments hn] at he
      cases he
  · rw [state_ofMoments (le_max_right n times.length)]
    exact hends

end ShardCourse

/-- A shard with nothing on record and the mark 4. There are events at 1 and 3, a tombstone at 2,
and nothing at 4. The events are to be fetched none at a time, which counts as one at a time. -/
def ShardTask.sparse : ShardTask MemoryLog Rehearsal.ScriptedProjection where
  consumer := { identity := "T:All" }
  projection := { name := "T", plan := [] }
  surroundings :=
    { commons :=
        { log :=
            { highest := 4
              events := [(1, false), (2, true), (3, false)].map fun entry =>
                (entry.1, ⟨"", [], ⟨0, false⟩, entry.2⟩) }
          tracker := { mark := ⟨4, 1⟩ }
          origin := ⟨0, false⟩ }
      supervisor := { policy := {}, shards := .ofNames [.whole "T"], commands := default }
      batchSize := 0
      shutdown := false }

/-- In that rehearsal the shard reaches its mark with both events applied. -/
theorem ShardCourse.Smooth.reaches_mark_of_sparse :
    let x := ShardCourse.ofMoments ShardTask.sparse (List.replicate 10 0)
    ∃ N, ∀ n ≥ N, (x.state n).consumer.stage = .idle ∧
      (x.state n).surroundings.row "T:All" = 4 ∧ Links 0 (x.batches n) 4 ∧
        (x.batches n).length ≤ 3 ∧
          x.attempts n = once ([1, 3].map fun p => ⟨p, "", [], ⟨0, false⟩⟩) := by
  intro x
  have hkept : Kept ShardTask.sparse.surroundings.commons.log := by
    simp [Kept, ShardTask.sparse, MemoryLog.Ascending]
  have hx : x.Smooth := by
    refine ShardCourse.smooth_ofMoments ⟨rfl, rfl, hkept⟩ (by decide +kernel) rfl ⟨_, rfl, rfl⟩ ?_
      ⟨[1, 3].map fun p => ⟨p, "", [], ⟨0, false⟩⟩, by decide +kernel⟩ ?_
    · decide +kernel
    · rintro now ⟨⟩
  obtain ⟨-, hbatches, hreaches, -⟩ := hx.reaches_mark
  have hthree : (eventsWithin x.start.row x.start.mark x.start.events).length /
      max x.start.surroundings.batchSize 1 + 1 = 3 := by decide +kernel
  obtain ⟨N, hN⟩ := hreaches (by decide +kernel)
  refine ⟨N, fun n hn => ?_⟩
  obtain ⟨hstage, hrow, hlinks, hattempts⟩ := hN n hn
  exact ⟨hstage, hrow, hlinks, hthree ▸ (hbatches n).2, hattempts⟩

/-- A shard that comes with its first batch to a position too far below the mark crashes there,
although everything that it has called has gone well: it completes no batch and never reaches its
mark. -/
theorem ShardCourse.exists_smooth_crash :
    ∃ x : ShardCourse MemoryLog Rehearsal.ScriptedProjection, x.Smooth ∧ x.start.row = -5 ∧
      x.start.mark = Position.last ∧
        (∀ n, x.batches n = [] ∧ (x.state n).surroundings.row "T:All" ≤ -3) ∧
          ∀ n ≥ 5, (x.state n).consumer.isOver = true := by
  let start : ShardTask MemoryLog Rehearsal.ScriptedProjection :=
    { ShardTask.tooFar with projection := { name := "T", plan := [] } }
  let times : List Moment := [0, 0, 0, 0, 0]
  let x := ShardCourse.ofMoments start times
  have hkept : Kept start.surroundings.commons.log := by
    simp [Kept, start, ShardTask.tooFar, MemoryLog.Ascending]
  have hover : (x.state 5).consumer.isOver = true := by decide +kernel
  have hearly : ∀ n ≤ 5, x.batches n = [] ∧ (x.state n).surroundings.row "T:All" ≤ -3 := by
    decide +kernel
  have hstays {n : ℕ} (hn : n ≥ 5) : x.state n = x.state 5 ∧ x.batches n = x.batches 5 :=
    ⟨ShardCourse.state_ofMoments hn, ShardCourse.batches_ofMoments hn⟩
  refine ⟨x, ?_, by decide +kernel, by decide +kernel, fun n => ?_, fun n hn => ?_⟩
  · exact ShardCourse.smooth_ofMoments ⟨rfl, rfl, hkept⟩ (by decide +kernel) rfl ⟨_, rfl, rfl⟩
      (by decide +kernel) ⟨[⟨-3, "", [], ⟨0, false⟩⟩], by decide +kernel⟩
      (Consumer.wait_ne_ready_of_isOver hover)
  · rcases le_total n 5 with hle | hge
    · exact hearly n hle
    · rw [(hstays hge).1, (hstays hge).2]
      exact hearly 5 le_rfl
  · rw [(hstays hn).1]
    exact hover

end Tidemark
