import Mathlib.Data.List.Count
import Tidemark.Proofs.Shard.Coverage
import Tidemark.Proofs.Shard.Cursor

/-!
# Every event is dealt with once

A shard outlives its tasks: when one has ended, another one begins over the same log. A `Service` is
what becomes of a shard over any number of tasks, as long as no task is cut off by its projection
and no progress is refused (`ShardTask.goesWell`), and as long as no event is added below a mark
that has been published at any time.

Along every service the events are applied in strictly ascending order, and every event up to the
progress on record was either applied once or skipped once (`applied_once`). The invariant behind
this (`Posture.Exact`) says that nothing was dealt with above the position from which the consumer
may go on, and that this is the progress on record whenever it goes back.
-/

namespace Tidemark

open LogView

/-! ## What was dealt with -/

/-- The events that were applied, the last one first. -/
def applied (deeds : List Deed) : List EventRecord :=
  deeds.filterMap fun
    | .tried e _ true => some e
    | _ => none

/-- The events that were skipped, the last one first. -/
def skipped (deeds : List Deed) : List EventRecord :=
  deeds.filterMap fun
    | .skipped e => some e
    | _ => none

/-- The events that were applied or skipped, the last one first. -/
def dealt (deeds : List Deed) : List EventRecord :=
  deeds.filterMap fun
    | .tried e _ true => some e
    | .skipped e => some e
    | _ => none

/-- What was dealt with is listed. -/
theorem mem_dealt {deeds : List Deed} {e : EventRecord} (h : Dealt deeds e) : e ∈ dealt deeds := by
  rcases h with ⟨mark, h⟩ | h
  · exact List.mem_filterMap.mpr ⟨_, h, rfl⟩
  · exact List.mem_filterMap.mpr ⟨_, h, rfl⟩

/-- What was applied is part of what was dealt with. -/
theorem applied_sublist (deeds : List Deed) : (applied deeds).Sublist (dealt deeds) := by
  induction deeds with
  | nil => exact .slnil
  | cons d deeds ih =>
    match d with
    | .tried e _ true => exact ih.cons_cons e
    | .skipped e => exact ih.cons e
    | .tried _ _ false | .began _ | .recorded _ | .refused _ => exact ih

/-- What was dealt with was either applied or skipped. -/
theorem count_dealt (deeds : List Deed) (e : EventRecord) :
    (applied deeds).count e + (skipped deeds).count e = (dealt deeds).count e := by
  induction deeds with
  | nil => rfl
  | cons d deeds ih =>
    match d with
    | .tried f _ true =>
      show (f :: applied deeds).count e + (skipped deeds).count e = (f :: dealt deeds).count e
      rw [List.count_cons, List.count_cons, ← ih]
      omega
    | .skipped f =>
      show (applied deeds).count e + (f :: skipped deeds).count e = (f :: dealt deeds).count e
      rw [List.count_cons, List.count_cons, ← ih]
      omega
    | .tried _ _ false | .began _ | .recorded _ | .refused _ => exact ih

/-! ## The invariant -/

/-- Nothing was dealt with above a position. -/
def Bounded (done : List EventRecord) (p : Position) : Prop := ∀ e ∈ done, e.sequence ≤ p

/-- Nothing was dealt with above where the consumer stands, and wherever it may go back to is the
progress on record. -/
def Posture.Exact (done : List EventRecord) (row : Position) : Posture → Prop
  | .free none | .lost => Bounded done row
  | .free (some p) | .bound p _ => p = row ∧ Bounded done row
  | .busy b => Bounded done b.handled ∧ (b.handled ≤ b.committed → b.committed = row)
  | .stuck b saved => saved = row ∧ b.handled = row ∧ Bounded done row

/-- A consumer that goes into a round with the progress on record is exact. -/
theorem Rounds.exact {mark row : Position} {done : List EventRecord} {q : Posture}
    (h : Rounds mark (some row) q) (hb : Bounded done row) : q.Exact done row := by
  cases h with
  | rests => exact ⟨rfl, hb⟩
  | fetches hp hmark => exact ⟨(Option.some.inj hp).symm, hb⟩

/-- The first event of a batch is dealt with after all others. -/
theorem Batch.Ordered.dealt_next {b : Batch} (h : b.Ordered) {e : EventRecord}
    {es : List EventRecord} (hes : b.events = e :: es) {done : List EventRecord}
    (hb : Bounded done b.handled) (hdone : done.Pairwise (·.sequence > ·.sequence)) :
    (e :: done).Pairwise (·.sequence > ·.sequence) ∧ Bounded (e :: done) e.sequence := by
  have habove : b.handled < e.sequence := h.above e (hes ▸ List.mem_cons_self)
  have hlt : ∀ f ∈ done, f.sequence < e.sequence := fun f hf => lt_of_le_of_lt (hb f hf) habove
  refine ⟨List.pairwise_cons.mpr ⟨hlt, hdone⟩, fun f hf => ?_⟩
  rcases List.mem_cons.mp hf with rfl | hf
  · exact le_refl _
  · exact (hlt f hf).le

/-- A beat by which no progress is refused, and by which a consumer that is busy is lost only after
its progress was recorded, deals with events in their order and goes back to the progress on record
only. -/
theorem Beat.exact {mark : Position} {events : List EventRecord} {limit : Nat} {q q' : Posture}
    {r r' : Position} {d : Option Deed} {deeds : List Deed}
    (h : Beat mark events limit q r d q' r') (hrefused : ∀ p, d ≠ some (.refused p))
    (hlost : ∀ b, q = .busy b → q' = .lost → ∃ p, d = some (.recorded p)) (ho : q.Ordered)
    (hdone : (dealt deeds).Pairwise (·.sequence > ·.sequence)) (hq : q.Exact (dealt deeds) r) :
    (dealt (d.toList ++ deeds)).Pairwise (·.sequence > ·.sequence) ∧
      q'.Exact (dealt (d.toList ++ deeds)) r' := by
  cases h with
  | @rounds position q r h =>
    cases position with
    | none =>
      cases h with
      | rests => exact ⟨hdone, hq⟩
      | fetches hp hmark => cases hp
    | some p =>
      obtain ⟨rfl, hb⟩ := hq
      exact ⟨hdone, h.exact hb⟩
  | loads h => exact ⟨hdone, h.exact hq⟩
  | @crashes q r =>
    refine ⟨hdone, ?_⟩
    cases q with
    | free position =>
      cases position with
      | none => exact hq
      | some p => exact hq.2
    | bound committed mark => exact hq.2
    | busy b =>
      obtain ⟨p, hp⟩ := hlost b rfl rfl
      cases hp
    | stuck b saved => exact hq.2.2
    | lost => exact hq
  | unbound => exact ⟨hdone, hq⟩
  | begins hes => exact ⟨hdone, hq.1 ▸ hq.2, fun _ => hq.1⟩
  | applies hes =>
    obtain ⟨hdone', hb'⟩ := ho.dealt_next hes hq.1 hdone
    exact ⟨hdone', hb', fun hle => absurd hle (not_le.mpr (ho.committed_lt hes))⟩
  | fails hes hh =>
    -- Nothing of the batch was handled, so that its beginning is the progress on record.
    have hrow := hq.2 hh
    have hhandled := le_antisymm hh ho.begun
    exact ⟨hdone, hrow, hhandled.trans hrow, hhandled.trans hrow ▸ hq.1⟩
  | defers hes hh => exact ⟨hdone, hq⟩
  | @wrecks b r e es hes =>
    obtain ⟨p, hp⟩ := hlost b rfl rfl
    cases hp
  | runsOut => exact ⟨hdone, hq⟩
  | saves hne hh => exact ⟨hdone, rfl, rfl, hq.1⟩
  | refusesSave hne hh hq' => exact absurd rfl (hrefused _)
  | closes hes ht hq' =>
    have hb := fun e he => le_trans (hq.1 e he) ho.ends
    rcases hq' with hq' | rfl
    · exact ⟨hdone, hq'.exact hb⟩
    · exact ⟨hdone, hb⟩
  | refusesClose hes ht hq' => exact absurd rfl (hrefused _)
  | passes hes ht hq' => exact absurd ht (not_le.mpr ho.ahead)
  | stays => exact ⟨hdone, hq⟩
  | skips hes =>
    obtain ⟨rfl, hhandled, hb⟩ := hq
    obtain ⟨hdone', hb'⟩ := ho.1.dealt_next hes (hhandled ▸ hb) hdone
    exact ⟨hdone', hb', fun hle => absurd hle (not_le.mpr (ho.1.committed_lt hes))⟩
  | restarts hq' =>
    obtain ⟨rfl, -, hb⟩ := hq
    exact ⟨hdone, hq'.exact hb⟩

/-! ## Services -/

/-- A consumer whose projection does not crash goes on after an event. -/
theorem Consumer.applied_ne_lost {L π : Type} [Projection π] (c : Consumer) (p : π)
    (s : Surroundings L) (now : Moment) (b : Batch) (e : EventRecord) (rest : List EventRecord)
    {result : Applied} (h : result ≠ .crashed) :
    (c.applied p s now b e rest result).1.posture ≠ .lost := by
  cases result with
  | ok => cases rest <;> simp [Consumer.applied, advance, at_, posture]
  | failed cause =>
    unfold Consumer.applied
    split_ifs <;> simp [at_, posture, Interrupted.posture]
  | crashed => exact absurd rfl h

/-- Progress that was to be recorded and was not refused was recorded. -/
theorem Deed.recorded_of_ofWrite {α : Type} {p : Position} {outcome : Outcome α}
    (h : ∀ q, some (ofWrite p outcome) ≠ some (.refused q)) :
    ∃ q, some (ofWrite p outcome) = some (.recorded q) := by
  cases outcome with
  | ok a => exact ⟨p, rfl⟩
  | error fault => exact absurd rfl (h p)

namespace ShardTask

variable {L π : Type} [EventLog L] [Projection π]

/-- The projection does not crash in the next step, and no progress is refused. -/
def goesWell (t : ShardTask L π) (now : Moment) : Bool :=
  match t.deed now with
  | some (.tried _ _ false) => !(t.step now).consumer.isOver
  | some (.refused _) => false
  | _ => true

/-- No progress is refused in a step that goes well. -/
theorem not_refused {t : ShardTask L π} {now : Moment} (hwell : t.goesWell now = true)
    (p : Position) : t.deed now ≠ some (.refused p) := by
  intro hdeed
  simp only [goesWell, hdeed] at hwell
  cases hwell

/-- A consumer that is busy and whose step goes well is lost only after its progress was recorded:
it crashes if the lag that remains cannot be represented. -/
theorem recorded_of_lost {t : ShardTask L π} {now : Moment} (hwell : t.goesWell now = true)
    {b : Batch} (ho : b.Ordered) (hbusy : t.consumer.posture = .busy b)
    (hlost : (t.step now).consumer.posture = .lost) : ∃ p, t.deed now = some (.recorded p) := by
  have hrefused := not_refused hwell
  obtain ⟨⟨identity, stage, seenMark, seenControl, position⟩, p, s⟩ := t
  cases stage with
  | applying batch due =>
    cases hevents : batch.events with
    | nil => simp [step, Consumer.step, hevents, Consumer.at_, Consumer.posture] at hlost
    | cons e rest =>
      simp only [step, Consumer.step, hevents] at hlost
      by_cases hcrashed : (Projection.apply p e now).1 = .crashed
      · -- A projection that crashes does not let its step go well.
        simp [goesWell, deed, Consumer.deed, step, Consumer.step, hevents, hcrashed, Applied.isOk,
          Consumer.applied, Consumer.crash, Consumer.at_, Consumer.isOver] at hwell
      · exact absurd hlost (Consumer.applied_ne_lost _ _ _ _ _ _ _ hcrashed)
  | saving batch cause => exact Deed.recorded_of_ofWrite hrefused
  | closing batch =>
    obtain rfl : batch = b := by simpa [Consumer.posture] using hbusy
    simp only [deed, Consumer.deed, if_neg (not_le.mpr ho.ahead)] at hrefused ⊢
    exact Deed.recorded_of_ofWrite hrefused
  | failing i e => cases i <;> simp [Consumer.posture, Interrupted.posture] at hbusy
  | reporting i report => cases i <;> simp [Consumer.posture, Interrupted.posture] at hbusy
  | backingOff i due => cases i <;> simp [Consumer.posture, Interrupted.posture] at hbusy
  | _ => simp [Consumer.posture] at hbusy

end ShardTask

/-- What happens to a shard apart from its steps: nobody else writes its progress, and no event is
added at or below a mark that was published. -/
structure Undisturbed {L : Type} [LogView L] (shard : String) (mark : Position)
    (s s' : Surroundings L) : Prop extends Alone shard s s' where
  added : NoneAdded mark s.events s'.events

/-- What becomes of a shard from a task on, with the highest mark published so far and the deeds of
all its tasks, the last one first. A task begins once the one before it has ended. -/
inductive Service {L π : Type} [EventLog L] [LogView L] [Projection π] (t : ShardTask L π) :
    Position → List Deed → ShardTask L π → Prop where
  | start : Service t t.mark [] t
  /-- The present task takes a step. -/
  | worked {mark : Position} {deeds : List Deed} {u : ShardTask L π} (h : Service t mark deeds u)
    (now : Moment) (hwell : u.goesWell now = true) :
    Service t mark ((u.deed now).toList ++ deeds) (u.step now)
  /-- Something happens elsewhere. -/
  | elsewhere {mark : Position} {deeds : List Deed} {u : ShardTask L π} (h : Service t mark deeds u)
    {s : Surroundings L} (hs : Undisturbed u.consumer.identity mark u.surroundings s) :
    Service t (max mark s.mark) deeds { u with surroundings := s }
  /-- The present task has ended, and another one begins. -/
  | restarted {mark : Position} {deeds : List Deed} {u v : ShardTask L π}
    (h : Service t mark deeds u) (hover : u.consumer.isOver = true) (hv : v.Fresh)
    (hidentity : v.consumer.identity = u.consumer.identity)
    (hs : Undisturbed u.consumer.identity mark u.surroundings v.surroundings) :
    Service t (max mark v.mark) deeds v

namespace Service

variable {L π : Type} [EventLog L] [LawfulLog L] [Projection π] {t u : ShardTask L π}
  {mark : Position} {deeds : List Deed}

/-- What holds along every service. -/
structure Upheld (t : ShardTask L π) (mark : Position) (deeds : List Deed) (u : ShardTask L π) :
    Prop where
  coherent : u.consumer.Coherent
  ordered : u.consumer.posture.Ordered
  kept : Kept u.surroundings.commons.log
  published : u.mark ≤ mark
  row : Covers t.row mark u.events deeds u.row
  secured : u.consumer.posture.Secured t.row mark u.events deeds
  descending : (dealt deeds).Pairwise (·.sequence > ·.sequence)
  exact : u.consumer.posture.Exact (dealt deeds) u.row

/-- A task that has ended has dealt with nothing above the progress on record. -/
theorem bounded_of_isOver {c : Consumer} (hover : c.isOver = true) {done : List EventRecord}
    {row : Position} (h : c.posture.Exact done row) : Bounded done row := by
  obtain ⟨identity, stage, seenMark, seenControl, position⟩ := c
  cases stage with
  | ended =>
    cases position with
    | none => exact h
    | some p => exact h.2
  | crashed => exact h
  | _ => cases hover

/-- Every service is upheld. -/
theorem upheld (ht : t.Fresh) (h : Service t mark deeds u) : Upheld t mark deeds u := by
  induction h with
  | start =>
    refine ⟨by simp [Consumer.Coherent, ht.stage], ?_, ht.kept, le_refl _, ?_, ?_, .nil, ?_⟩
    · rw [ht.posture]; trivial
    · exact ⟨fun e _ hs hle => absurd hle (not_le.mpr hs), .inl (le_refl _)⟩
    · rw [ht.posture]; exact fun p hp => (by cases hp)
    · rw [ht.posture]; exact fun e he => (by cases he)
  | @worked mark deeds u _ now hwell ih =>
    have hm : Moves u.consumer u.surroundings (u.deed now) (u.step now).consumer
        (u.step now).surroundings :=
      Consumer.step_moves u.projection u.surroundings now ih.coherent ih.kept
    have hevents := LawfulLog.stored_pairwise ih.kept
    obtain ⟨hrow, hsecured⟩ := hm.beat.secured ih.published (lt_max_of_lt_right Nat.one_pos) hevents
      ih.ordered ih.row ih.secured
    have hlost : ∀ b, u.consumer.posture = .busy b → (u.step now).consumer.posture = .lost →
        ∃ p, u.deed now = some (.recorded p) := fun b hbusy hlost => by
      have hordered := ih.ordered
      rw [hbusy] at hordered
      exact ShardTask.recorded_of_lost hwell hordered hbusy hlost
    obtain ⟨hdescending, hexact⟩ := hm.beat.exact (ShardTask.not_refused hwell) hlost ih.ordered
      ih.descending ih.exact
    have hevents' : (u.step now).events = u.events := hm.events
    have hrow' : (u.step now).row = (u.step now).surroundings.row u.consumer.identity := by
      rw [ShardTask.row, hm.identity]
    refine ⟨hm.coherent, hm.beat.ordered hevents ih.ordered, hm.kept ih.kept,
      le_trans (le_of_eq hm.mark) ih.published, ?_, ?_, hdescending, ?_⟩
    · rw [hevents', hrow']; exact hrow
    · rw [hevents']; exact hsecured
    · rw [hrow']; exact hexact
  | @elsewhere mark deeds u _ s hs ih =>
    have hle : mark ≤ max mark s.mark := le_max_left _ _
    have hrow : ({ u with surroundings := s } : ShardTask L π).row = u.row := hs.row
    refine ⟨ih.coherent, ih.ordered, hs.kept ih.kept, le_max_right _ _, ?_,
      hs.added.secured hle ih.ordered ih.secured, ih.descending, ?_⟩
    · rw [hrow]; exact hs.added.covers hle ih.row
    · rw [hrow]; exact ih.exact
  | @restarted mark deeds u v _ hover hv hidentity hs ih =>
    -- The next task knows nothing, and finds the progress on record as the last one left it.
    have hle : mark ≤ max mark v.mark := le_max_left _ _
    have hrow : v.row = u.row := by
      rw [ShardTask.row, hidentity]
      exact hs.row
    refine ⟨by simp [Consumer.Coherent, hv.stage], ?_, hv.kept, le_max_right _ _, ?_, ?_,
      ih.descending, ?_⟩
    · rw [hv.posture]; trivial
    · rw [hrow]; exact hs.added.covers hle ih.row
    · rw [hv.posture]; exact fun p hp => (by cases hp)
    · rw [hv.posture, hrow]; exact bounded_of_isOver hover ih.exact

end Service

/-- Along every service of a shard, in which no projection crashes, no progress is refused and no
event is added below a published mark, the events are applied in strictly ascending order, and every
event above the progress at the beginning and up to the progress on record was either applied
exactly once or skipped exactly once. -/
theorem applied_once {L π : Type} [EventLog L] [LawfulLog L] [Projection π] {t u : ShardTask L π}
    {mark : Position} {deeds : List Deed} (ht : t.Fresh) (h : Service t mark deeds u) :
    ((applied deeds).map (·.sequence)).Pairwise (· > ·) ∧
      ∀ e ∈ u.events, t.row < e.sequence → e.sequence ≤ u.row →
        (applied deeds).count e + (skipped deeds).count e = 1 := by
  have hup := h.upheld ht
  refine ⟨List.pairwise_map.mpr (hup.descending.sublist (applied_sublist deeds)), ?_⟩
  intro e he hs hle
  have hmem : e ∈ dealt deeds := mem_dealt (hup.row.dealt e he hs hle)
  have hnodup : (dealt deeds).Nodup :=
    hup.descending.imp fun {e f} (hlt : f.sequence < e.sequence) heq =>
      absurd (congrArg EventRecord.sequence heq) (ne_of_gt hlt)
  rw [count_dealt, List.count_eq_one_of_mem hnodup hmem]

/-- The next steps go well, so many of them. -/
def ShardTask.playsWell {L π : Type} [EventLog L] [Projection π] (t : ShardTask L π) : Nat → Bool
  | 0 => true
  | n + 1 => t.goesWell 0 && (t.step 0).playsWell n

/-- A service goes on with any number of steps that go well. -/
theorem Service.play {L π : Type} [EventLog L] [LogView L] [Projection π] {t u : ShardTask L π}
    {mark : Position} {deeds : List Deed} (h : Service t mark deeds u) (n : Nat)
    (hwell : u.playsWell n = true) : Service t mark ((u.play n).1 ++ deeds) (u.play n).2 := by
  induction n generalizing u deeds with
  | zero => exact h
  | succ n ih =>
    obtain ⟨hstep, hrest⟩ := Bool.and_eq_true_iff.mp hwell
    simp only [ShardTask.play, List.append_assoc]
    exact ih (h.worked 0 hstep) hrest

/-- A task that is to end. -/
def ShardTask.closing {L π : Type} (t : ShardTask L π) : ShardTask L π :=
  { t with surroundings := { t.surroundings with shutdown := true } }

/-- A task over another log. -/
def ShardTask.over {L π : Type} (t : ShardTask L π) (log : L) : ShardTask L π :=
  { t with surroundings :=
      { t.surroundings with commons := { t.surroundings.commons with log := log } } }

/-- A shard goes on when it is to end. -/
theorem Service.closing {L π : Type} [EventLog L] [LogView L] [Projection π] {t u : ShardTask L π}
    {mark : Position} {deeds : List Deed} (h : Service t mark deeds u) :
    Service t (max mark u.mark) deeds u.closing :=
  h.elsewhere (s := u.closing.surroundings) ⟨⟨id, rfl, rfl⟩, fun _ he _ => he⟩

/-- A shard goes on with a task that begins like the first one over the log that is left. -/
theorem Service.again {L π : Type} [EventLog L] [LawfulLog L] [Projection π] {t u : ShardTask L π}
    {mark : Position} {deeds : List Deed} (ht : t.Fresh) (h : Service t mark deeds u)
    (hover : u.consumer.isOver = true) (hidentity : t.consumer.identity = u.consumer.identity)
    (hname : t.surroundings.rowName u.consumer.identity =
      u.surroundings.rowName u.consumer.identity) :
    Service t (max mark t.mark) deeds (t.over u.surroundings.commons.log) := by
  have hfresh : (t.over u.surroundings.commons.log).Fresh :=
    ⟨ht.stage, ht.position, (h.upheld ht).kept⟩
  exact h.restarted hover hfresh hidentity
    ⟨⟨id, hname, congrArg (recorded u.surroundings.commons.log) hname⟩, fun _ he _ => he⟩

/-- A rehearsal that fetches single events and skips the second one. The task ends on request once
it has recorded the first event, and the next one goes on from there: the other two events are dealt
with once. -/
theorem applied_once_over_two_tasks :
    ∃ (t u : ShardTask MemoryLog Rehearsal.ScriptedProjection) (mark : Position)
      (deeds : List Deed), t.Fresh ∧ Service t mark deeds u ∧ u.row = 3 ∧
        (applied deeds).map (·.sequence) = [3, 1] ∧ (skipped deeds).map (·.sequence) = [2] ∧
          ∀ e ∈ u.events, t.row < e.sequence → e.sequence ≤ u.row →
            (applied deeds).count e + (skipped deeds).count e = 1 := by
  let rehearsal := ShardTask.rehearsal [Rehearsal.poison 2] .skipping
  let t := { rehearsal with surroundings := { rehearsal.surroundings with batchSize := 1 } }
  have hfresh : rehearsal.Fresh := ShardTask.rehearsal_fresh _ _
  have ht : t.Fresh := ⟨rfl, rfl, hfresh.kept⟩
  let ended := ((t.play 4).2.closing.play 1).2
  let next := t.over ended.surroundings.commons.log
  have hbegun : Service t 3 _ (t.play 4).2 := Service.start.play 4 (by decide +kernel)
  have hended : Service t _ _ ended := hbegun.closing.play 1 (by decide +kernel)
  have hnext : Service t _ _ next := hended.again ht (by decide +kernel) (by decide +kernel)
    (by decide +kernel)
  have h : Service t _ _ (next.play 13).2 := hnext.play 13 (by decide +kernel)
  refine ⟨t, _, _, _, ht, h, ?_, ?_, ?_, (applied_once ht h).2⟩
  · decide +kernel
  · decide +kernel
  · decide +kernel

end Tidemark
