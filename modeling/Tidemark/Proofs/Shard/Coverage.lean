import Tidemark.Proofs.Shard.Run

/-!
# No event is lost

Whenever the progress of a shard is on record, every event up to it was applied or skipped since the
shard began (`events_dealt_with`). The invariant behind this says of the progress on record, and of
every position from which the consumer may go on, that all events up to it have been dealt with and
that it lies at or below the published mark (`Covers`), so that nothing can be stored below it any
more. In the middle of a batch, all events between the one handled last and the target are those
that the batch still holds (`Secured`).
-/

namespace Tidemark

open LogView

/-- An event was applied or skipped. -/
def Dealt (deeds : List Deed) (e : EventRecord) : Prop :=
  (∃ mark, .tried e mark true ∈ deeds) ∨ .skipped e ∈ deeds

/-- All events above a start and up to a position have been dealt with, and the position does not
lie above both the start and the published mark. -/
structure Covers (start mark : Position) (events : List EventRecord) (deeds : List Deed)
    (p : Position) : Prop where
  dealt : ∀ e ∈ events, start < e.sequence → e.sequence ≤ p → Dealt deeds e
  reached : p ≤ start ∨ p ≤ mark

/-- All that a batch has not handled below its target is still in it. -/
structure Batch.Secured (start mark : Position) (events : List EventRecord) (deeds : List Deed)
    (b : Batch) : Prop where
  handled : Covers start mark events deeds b.handled
  mark : b.mark ≤ mark
  held : ∀ e ∈ events, b.handled < e.sequence → e.sequence ≤ b.target → e ∈ b.events

/-- Wherever the consumer goes on from, all events before have been dealt with. -/
def Posture.Secured (start mark : Position) (events : List EventRecord) (deeds : List Deed) :
    Posture → Prop
  | .free position => ∀ p, position = some p → Covers start mark events deeds p
  | .bound committed upTo => Covers start mark events deeds committed ∧ upTo ≤ mark
  | .busy b | .stuck b _ => b.Secured start mark events deeds
  | .lost => True

section

variable {start mark : Position} {events : List EventRecord} {deeds : List Deed}

/-- What was dealt with stays dealt with. -/
theorem Dealt.append {e : EventRecord} (h : Dealt deeds e) (more : List Deed) :
    Dealt (more ++ deeds) e := by
  rcases h with ⟨m, h⟩ | h
  · exact .inl ⟨m, List.mem_append_right _ h⟩
  · exact .inr (List.mem_append_right _ h)

/-- Positions below a covered one are covered. -/
theorem Covers.mono {p p' : Position} (h : Covers start mark events deeds p') (hp : p ≤ p') :
    Covers start mark events deeds p :=
  ⟨fun e he hs hle => h.dealt e he hs (le_trans hle hp), h.reached.imp (le_trans hp) (le_trans hp)⟩

/-- A covered position stays covered by further deeds. -/
theorem Covers.append {p : Position} (h : Covers start mark events deeds p) (more : List Deed) :
    Covers start mark events (more ++ deeds) p :=
  ⟨fun e he hs hle => (h.dealt e he hs hle).append more, h.reached⟩

/-- A batch stays secured by further deeds. -/
theorem Batch.Secured.append {b : Batch} (h : b.Secured start mark events deeds)
    (more : List Deed) : b.Secured start mark events (more ++ deeds) :=
  ⟨h.handled.append more, h.mark, h.held⟩

/-- A consumer that goes into a round with a covered position is secured. -/
theorem Rounds.secured {present : Position} (hpresent : present ≤ mark) {position : Option Position}
    {q : Posture} (h : Rounds present position q)
    (hp : ∀ p, position = some p → Covers start mark events deeds p) :
    q.Secured start mark events deeds := by
  cases h with
  | rests => exact hp
  | fetches hposition hmark => exact ⟨hp _ hposition, hpresent⟩

/-- What is fetched reaches up to the target: no event below it is left out. -/
theorem mem_take_of_le_target {within : List EventRecord} {limit : Nat} (hlimit : 0 < limit)
    (hwithin : within.Pairwise (·.sequence < ·.sequence)) {e : EventRecord} (he : e ∈ within)
    (hle : e.sequence ≤ Consumer.target (within.take limit) limit mark) :
    e ∈ within.take limit := by
  rw [← List.take_append_drop limit within] at he hwithin
  rcases List.mem_append.mp he with htaken | hleft
  · exact htaken
  · -- The batch is full, so that the target is its last event, which lies before what is left.
    have hlong : limit < within.length := by
      by_contra hshort
      rw [List.drop_of_length_le (not_lt.mp hshort)] at hleft
      cases hleft
    have hfull : (within.take limit).length = limit := List.length_take_of_le hlong.le
    cases hlast : (within.take limit).getLast? with
    | none =>
      rw [List.getLast?_eq_none_iff] at hlast
      rw [hlast] at hfull
      exact absurd hfull.symm hlimit.ne'
    | some last =>
      have hbefore : last.sequence < e.sequence :=
        (List.pairwise_append.mp hwithin).2.2 last (List.mem_of_getLast? hlast) e hleft
      simp only [Consumer.target, hlast, hfull, le_refl, if_true] at hle
      exact absurd hle (not_le.mpr hbefore)

/-- A batch is secured when it is fetched. -/
theorem Batch.secured_of_fetched {es : List EventRecord} {limit : Nat} {c m : Position}
    {begun : Moment} (hlimit : 0 < limit) (hevents : events.Pairwise (·.sequence < ·.sequence))
    (hes : es = (eventsWithin c m events).take limit) (hcovers : Covers start mark events deeds c)
    (hm : m ≤ mark) (hread : Consumer.target es limit m ≤ m) :
    { committed := c, mark := m, begun := begun, events := es,
      target := Consumer.target es limit m, handled := c : Batch }.Secured start mark events
        deeds := by
  refine ⟨hcovers, hm, fun e he habove hbelow => ?_⟩
  subst hes
  exact mem_take_of_le_target hlimit (hevents.filter _)
    (mem_eventsWithin.mpr ⟨he, habove, le_trans hbelow hread⟩) hbelow

/-- A batch stays secured when its first event has been dealt with. -/
theorem Batch.Secured.tail {b : Batch} (h : b.Secured start mark events deeds) (ho : b.Ordered)
    {e : EventRecord} {es : List EventRecord} (hes : b.events = e :: es) (n : Nat)
    {more : List Deed} (hdealt : Dealt (more ++ deeds) e) :
    { b with events := es, handled := e.sequence, applied := n : Batch }.Secured start mark events
      (more ++ deeds) := by
  have hmem : e ∈ b.events := hes ▸ List.mem_cons_self
  have htarget := ho.below e hmem
  refine ⟨⟨fun x hx hs hle => ?_, .inr (le_trans htarget (le_trans ho.read h.mark))⟩, h.mark,
    fun x hx habove hbelow => ?_⟩
  · rcases le_or_gt x.sequence b.handled with hold | hnew
    · exact (h.handled.dealt x hx hs hold).append more
    · -- Above what was handled before, only the first event of the batch lies at or below it.
      have hheld := h.held x hx hnew (le_trans hle htarget)
      have hascending := ho.ascending
      rw [hes] at hheld hascending
      rcases List.mem_cons.mp hheld with rfl | hrest
      · exact hdealt
      · exact absurd hle (not_le.mpr ((List.pairwise_cons.mp hascending).1 x hrest))
  · have hheld := h.held x hx (lt_trans (ho.above e hmem) habove) hbelow
    rw [hes] at hheld
    rcases List.mem_cons.mp hheld with rfl | hrest
    · exact absurd habove (lt_irrefl _)
    · exact hrest

/-- A batch that holds nothing any more has covered its target. -/
theorem Batch.Secured.covers_target {b : Batch} (h : b.Secured start mark events deeds)
    (ho : b.Ordered) (hes : b.events = []) : Covers start mark events deeds b.target := by
  refine ⟨fun e he hs hle => ?_, .inr (le_trans ho.read h.mark)⟩
  rcases le_or_gt e.sequence b.handled with hold | hnew
  · exact h.handled.dealt e he hs hold
  · have hheld := h.held e he hnew hle
    rw [hes] at hheld
    cases hheld

/-- Every beat keeps the progress on record covered and the consumer secured, also with respect to
a mark above the present one. -/
theorem Beat.secured {present : Position} {limit : Nat} {q q' : Posture} {r r' : Position}
    {d : Option Deed} (h : Beat present events limit q r d q' r') (hpresent : present ≤ mark)
    (hlimit : 0 < limit)
    (hevents : events.Pairwise (·.sequence < ·.sequence)) (ho : q.Ordered)
    (hr : Covers start mark events deeds r) (hq : q.Secured start mark events deeds) :
    Covers start mark events (d.toList ++ deeds) r' ∧
      q'.Secured start mark events (d.toList ++ deeds) := by
  -- Most beats leave the progress on record as it is, and what is covered stays so.
  have hr₁ := hr.append d.toList
  cases h with
  | rounds h => exact ⟨hr, h.secured hpresent hq⟩
  | loads h => exact ⟨hr, h.secured hpresent fun p hp => Option.some.inj hp ▸ hr⟩
  | crashes => exact ⟨hr, trivial⟩
  | unbound => exact ⟨hr, fun p hp => Option.some.inj hp ▸ hq.1⟩
  | begins hes =>
    have hread := (Batch.ordered_of_fetched 0 hevents ho hes).read
    exact ⟨hr₁, Batch.secured_of_fetched hlimit hevents hes (hq.1.append _) hq.2 hread⟩
  | applies hes => exact ⟨hr₁, hq.tail ho hes _ (.inl ⟨present, List.mem_cons_self⟩)⟩
  | fails hes hh => exact ⟨hr₁, hq.append _⟩
  | defers hes hh => exact ⟨hr₁, hq.append _⟩
  | wrecks => exact ⟨hr₁, trivial⟩
  | runsOut => exact ⟨hr, hq⟩
  | saves hne hh => exact ⟨hq.handled.append _, hq.append _⟩
  | refusesSave hne hh hq' =>
    rcases hq' with rfl | rfl
    · exact ⟨hr₁, hq.append _⟩
    · exact ⟨hr₁, trivial⟩
  | @closes b r q' hes ht hq' =>
    -- A batch that is at its end has dealt with everything up to its target.
    have htarget := (hq.covers_target ho hes).append [.recorded b.target]
    refine ⟨htarget, ?_⟩
    rcases hq' with hq' | rfl
    · exact hq'.secured hpresent fun p hp => Option.some.inj hp ▸ htarget
    · trivial
  | refusesClose hes ht hq' =>
    rcases hq' with rfl | rfl
    · exact ⟨hr₁, hq.append _⟩
    · exact ⟨hr₁, trivial⟩
  | passes hes ht hq' =>
    exact ⟨hr, hq'.secured hpresent fun p hp => Option.some.inj hp ▸ hq.handled.mono ho.begun⟩
  | stays => exact ⟨hr, hq⟩
  | skips hes => exact ⟨hr₁, hq.tail ho.1 hes _ (.inr List.mem_cons_self)⟩
  | restarts hq' =>
    exact ⟨hr, hq'.secured hpresent fun p hp => Option.some.inj hp ▸ hq.handled.mono ho.2.2⟩

/-- An event that is handed to a projection does not lie above the published mark. -/
theorem Beat.sequence_le {limit : Nat} {q q' : Posture} {r r' m : Position} {e : EventRecord}
    {ok : Bool} (h : Beat mark events limit q r (some (.tried e m ok)) q' r') (ho : q.Ordered)
    (hq : q.Secured start mark events deeds) : e.sequence ≤ m := by
  have hle {b : Batch} {es : List EventRecord} (ho : b.Ordered)
      (hq : b.Secured start mark events deeds) (hes : b.events = e :: es) : e.sequence ≤ mark :=
    le_trans (ho.below e (hes ▸ List.mem_cons_self)) (le_trans ho.read hq.mark)
  cases h with
  | applies hes => exact hle ho hq hes
  | fails hes hh => exact hle ho hq hes
  | defers hes hh => exact hle ho hq hes
  | wrecks hes => exact hle ho hq hes

end

/-! ## What the others do -/

/-- No event is added at or below a position. -/
def NoneAdded (mark : Position) (events events' : List EventRecord) : Prop :=
  ∀ e ∈ events', e.sequence ≤ mark → e ∈ events

namespace NoneAdded

variable {start mark mark' : Position} {events events' : List EventRecord} {deeds : List Deed}

/-- A covered position stays covered as the mark rises and no event is added below it. -/
theorem covers (h : NoneAdded mark events events') (hm : mark ≤ mark') {p : Position}
    (hp : Covers start mark events deeds p) : Covers start mark' events' deeds p := by
  refine ⟨fun e he hs hle => ?_, hp.reached.imp id fun hpm => le_trans hpm hm⟩
  -- Below the start there is nothing to cover, and below the mark nothing is added.
  rcases hp.reached with hstart | hmark
  · exact absurd (lt_of_lt_of_le hs (le_trans hle hstart)) (lt_irrefl _)
  · exact hp.dealt e (h e he (le_trans hle hmark)) hs hle

/-- A batch stays secured as the mark rises and no event is added below it. -/
theorem batch_secured (h : NoneAdded mark events events') (hm : mark ≤ mark') {b : Batch}
    (ho : b.Ordered) (hb : b.Secured start mark events deeds) :
    b.Secured start mark' events' deeds := by
  refine ⟨h.covers hm hb.handled, le_trans hb.mark hm, fun e he habove hbelow => ?_⟩
  have hmark : e.sequence ≤ mark := le_trans hbelow (le_trans ho.read hb.mark)
  exact hb.held e (h e he hmark) habove hbelow

/-- A consumer stays secured as the mark rises and no event is added below it. -/
theorem secured (h : NoneAdded mark events events') (hm : mark ≤ mark') {q : Posture}
    (ho : q.Ordered) (hq : q.Secured start mark events deeds) :
    q.Secured start mark' events' deeds := by
  cases q with
  | free position => exact fun p hp => h.covers hm (hq p hp)
  | bound committed upTo => exact ⟨h.covers hm hq.1, le_trans hq.2 hm⟩
  | busy b => exact h.batch_secured hm ho hq
  | stuck b saved => exact h.batch_secured hm ho.1 hq
  | lost => trivial

end NoneAdded

/-- What is published adds no event at or below the mark published before. -/
theorem Published.noneAdded {L : Type} [LogView L] {shard : String} {s s' : Surroundings L}
    (h : Published shard s s') : NoneAdded s.mark s.events s'.events :=
  fun e he hle => (h.events e hle).mp he

/-! ## Runs -/

/-- What holds of the deeds, the posture and the surroundings of a shard along every run. -/
structure Secure {L : Type} [LogView L] (shard : String) (start : Position) (deeds : List Deed)
    (q : Posture) (s : Surroundings L) : Prop where
  ordered : q.Ordered
  row : Covers start s.mark s.events deeds (s.row shard)
  posture : q.Secured start s.mark s.events deeds
  tried : ∀ e mark ok, .tried e mark ok ∈ deeds → e.sequence ≤ mark

/-- A run of a shard during which nobody else writes its progress and nothing is changed up to the
published mark stays secure. -/
theorem Run.secure {L π : Type} [EventLog L] [LawfulLog L] [Projection π] {t u : ShardTask L π}
    {deeds : List Deed} (ht : t.Fresh) (h : Run (Published t.consumer.identity) t deeds u) :
    Secure t.consumer.identity t.row deeds u.consumer.posture u.surroundings := by
  refine h.invariant (I := Secure t.consumer.identity t.row) ht (fun hs => hs.toAlone) ?_ ?_ ?_
  · exact ⟨trivial, ⟨fun e _ hs hle => absurd hle (not_le.mpr hs), .inl (le_refl _)⟩,
      fun p hp => (by cases hp), fun e mark ok hd => (by cases hd)⟩
  · intro deeds c s d c' s' hidentity hk ho hi hm
    have hbeat := hm.beat
    have hevents := LawfulLog.stored_pairwise hk
    rw [hidentity] at hbeat
    obtain ⟨hrow, hposture⟩ := hbeat.secured (le_refl _) (lt_max_of_lt_right Nat.one_pos) hevents
      ho hi.row hi.posture
    refine ⟨hbeat.ordered hevents ho, ?_, ?_, fun e mark ok hd => ?_⟩
    · rwa [hm.mark, hm.events]
    · rwa [hm.mark, hm.events]
    · rcases List.mem_append.mp hd with hnew | hold
      · rw [Option.mem_toList] at hnew
        obtain rfl : d = some (.tried e mark ok) := hnew
        exact hbeat.sequence_le ho hi.posture
      · exact hi.tried e mark ok hold
  · intro deeds q s s' hi hs
    refine ⟨hi.ordered, ?_, hs.noneAdded.secured hs.mark hi.ordered hi.posture, hi.tried⟩
    rw [hs.row]
    exact hs.noneAdded.covers hs.mark hi.row

/-- Along every run of a shard during which nobody else writes its progress and nothing is changed
up to the published mark, every event above the progress at the beginning and up to the progress on
record was applied, or was skipped by the policy; and no event was handed to the projection that lay
above the mark published at that time. -/
theorem events_dealt_with {L π : Type} [EventLog L] [LawfulLog L] [Projection π]
    {t u : ShardTask L π} {deeds : List Deed} (ht : t.Fresh)
    (h : Run (Published t.consumer.identity) t deeds u) :
    (∀ e ∈ u.events, t.row < e.sequence → e.sequence ≤ u.row →
        (∃ mark, .tried e mark true ∈ deeds) ∨ .skipped e ∈ deeds) ∧
      ∀ e mark ok, .tried e mark ok ∈ deeds → e.sequence ≤ mark := by
  have hsecure := h.secure ht
  refine ⟨fun e he hs hle => hsecure.row.dealt e he hs ?_, hsecure.tried⟩
  rwa [ShardTask.row, (h.sane ht fun hs => hs.toAlone).identity] at hle

/-- A rehearsal that applies the three events in one batch has dealt with them once it has recorded
its progress, and was handed none of them above the mark. -/
theorem events_dealt_with_in_rehearsal :
    ∃ (t u : ShardTask MemoryLog Rehearsal.ScriptedProjection) (deeds : List Deed),
      t.Fresh ∧ Run (Published t.consumer.identity) t deeds u ∧ t.row = 0 ∧ u.row = 3 ∧
        u.events.map (·.sequence) = [1, 2, 3] ∧
          (∀ e ∈ u.events, t.row < e.sequence → e.sequence ≤ u.row →
            (∃ mark, .tried e mark true ∈ deeds) ∨ .skipped e ∈ deeds) ∧
          ∀ e mark ok, .tried e mark ok ∈ deeds → e.sequence ≤ mark := by
  let t := ShardTask.rehearsal [] {}
  have ht : t.Fresh := ShardTask.rehearsal_fresh _ _
  have h : Run (Published t.consumer.identity) t _ _ := Run.start.play 8
  refine ⟨t, _, _, ht, h, ?_, ?_, ?_, events_dealt_with ht h⟩
  · decide +kernel
  · decide +kernel
  · decide +kernel

end Tidemark
