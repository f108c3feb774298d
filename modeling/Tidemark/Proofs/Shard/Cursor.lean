import Tidemark.Proofs.Shard.Run

/-!
# Where a shard goes on

After a failure in the middle of a batch a shard goes on from the progress that it takes to be on
record. This is right as long as the last attempt of the batch to record progress went through. If
it was refused after an earlier one of the same batch had gone through, the progress on record is
`Torn`: the consumer goes back to where the batch began, below the progress on record. Nothing else
makes the two differ, and as long as no batch begins while they differ, the progress on record never
goes down (`cursor_eq_row_iff`).
-/

namespace Tidemark

open LogView

/-! ## Torn progress -/

/-- Whether the last progress that was recorded was followed in the same batch by progress that was
refused, where `refused` says whether some was refused in the part of the batch already passed. The
deeds are listed with the last one first. -/
def tornFrom (refused : Bool) : List Deed → Bool
  | [] => false
  | .recorded _ :: _ => refused
  | .refused _ :: deeds => tornFrom true deeds
  | .began _ :: deeds => tornFrom false deeds
  | .tried _ _ _ :: deeds | .skipped _ :: deeds => tornFrom refused deeds

/-- The last progress that was recorded was followed in the same batch by progress that was
refused. -/
def Torn (deeds : List Deed) : Prop := tornFrom false deeds = true

instance (deeds : List Deed) : Decidable (Torn deeds) := inferInstanceAs (Decidable (_ = true))

/-- The progress that was recorded, the last one first. -/
def rows (deeds : List Deed) : List Position :=
  deeds.filterMap fun
    | .recorded p => some p
    | _ => none

/-- No batch began while the progress was torn. -/
def NeverResumesTorn (deeds : List Deed) : Prop :=
  ∀ c earlier, .began c :: earlier <:+ deeds → ¬ Torn earlier

/-- A position is the one on record, or lies below it if the progress is torn. -/
def Level (torn : Bool) (p row : Position) : Prop := p ≤ row ∧ (p = row ↔ torn = false)

/-- The position on record is level if nothing is torn. -/
theorem Level.refl (p : Position) : Level false p p := ⟨le_refl p, by simp⟩

/-- Progress that is recorded beyond a position leaves it behind. -/
theorem Level.of_lt {p row : Position} (h : p < row) : Level true p row :=
  ⟨le_of_lt h, by simpa using ne_of_lt h⟩

/-! ## The invariant -/

/-- Every position from which a consumer may go on is level: with the deeds so far, or with those
after a further refusal. -/
def Posture.Tracks (deeds : List Deed) (row : Position) : Posture → Prop
  | .free none => tornFrom false deeds = false
  | .free (some p) => Level (tornFrom false deeds) p row
  | .bound c _ => Level (tornFrom false deeds) c row
  | .busy b =>
    Level (tornFrom true deeds) b.committed row ∧
      (b.handled ≤ b.committed → Level (tornFrom false deeds) b.committed row)
  | .stuck b saved =>
    Level (tornFrom true deeds) b.committed row ∧ Level (tornFrom false deeds) saved row
  | .lost => True

section

variable {mark row : Position} {deeds : List Deed}

/-- A consumer that goes into a round with a level position tracks its progress. -/
theorem Rounds.tracks {p : Position} {q : Posture} (h : Rounds mark (some p) q)
    (hp : Level (tornFrom false deeds) p row) : q.Tracks deeds row := by
  cases h with
  | rests => exact hp
  | fetches hposition hmark => exact Option.some.inj hposition ▸ hp

/-- A batch whose first event has been dealt with lies above where it began. -/
theorem Batch.Ordered.committed_lt {b : Batch} (h : b.Ordered) {e : EventRecord}
    {es : List EventRecord} (hes : b.events = e :: es) : b.committed < e.sequence :=
  lt_of_le_of_lt h.begun (h.above e (hes ▸ List.mem_cons_self))

/-- Every beat goes on tracking the progress on record. -/
theorem Beat.tracks {events : List EventRecord} {limit : Nat} {q q' : Posture} {r r' : Position}
    {d : Option Deed} (h : Beat mark events limit q r d q' r') (ho : q.Ordered)
    (hq : q.Tracks deeds r) : q'.Tracks (d.toList ++ deeds) r' := by
  cases h with
  | @rounds position q r h =>
    cases position with
    | none =>
      cases h with
      | rests => exact hq
      | fetches hp hmark => cases hp
    | some p => exact h.tracks hq
  | loads h =>
    have hlevel : Level (tornFrom false deeds) r r := by rw [show _ = false from hq]; exact .refl r
    exact h.tracks hlevel
  | crashes => trivial
  | unbound => exact hq
  | begins hes => exact ⟨hq, fun _ => hq⟩
  | applies hes => exact ⟨hq.1, fun hle => absurd hle (not_le.mpr (ho.committed_lt hes))⟩
  | fails hes hh => exact ⟨hq.1, hq.2 hh⟩
  | defers hes hh => exact hq
  | wrecks => trivial
  | runsOut => exact hq
  | saves hne hh => exact ⟨.of_lt hh, .refl _⟩
  | refusesSave hne hh hq' =>
    -- The batch was level with the deeds after a further refusal, which this one is.
    rcases hq' with rfl | rfl
    · exact ⟨hq.1, hq.1⟩
    · trivial
  | closes hes ht hq' =>
    rcases hq' with hq' | rfl
    · exact hq'.tracks (.refl _)
    · trivial
  | refusesClose hes ht hq' =>
    rcases hq' with rfl | rfl
    · exact ⟨hq.1, hq.1⟩
    · trivial
  | passes hes ht hq' => exact absurd ht (not_le.mpr ho.ahead)
  | stays => exact hq
  | skips hes => exact ⟨hq.1, fun hle => absurd hle (not_le.mpr (ho.1.committed_lt hes))⟩
  | restarts hq' => exact hq'.tracks hq.2

/-- The progress on record lies where the batch began or below what it has handled. -/
def Posture.Climbs (row : Position) : Posture → Prop
  | .busy b => row ≤ b.committed ∨ row < b.handled
  | .stuck b _ => row ≤ b.handled
  | _ => True

/-- As long as no batch begins while the progress is torn, every beat that records progress raises
it. -/
theorem Beat.climbs {events : List EventRecord} {limit : Nat} {q q' : Posture} {r r' : Position}
    {d : Option Deed} (h : Beat mark events limit q r d q' r') (ho : q.Ordered)
    (htracks : q.Tracks deeds r) (hbegan : ∀ c, d = some (.began c) → ¬ Torn deeds)
    (hq : q.Climbs r) : q'.Climbs r' ∧ ∀ p, d = some (.recorded p) → r < p := by
  have hrounds {position : Option Position} {q : Posture} {r : Position}
      (h : Rounds mark position q) : q.Climbs r := by cases h <;> trivial
  -- A batch that is held up has handled at least what it had committed.
  have hheld {b : Batch} (ho : b.Ordered) (hq : r ≤ b.committed ∨ r < b.handled) : r ≤ b.handled :=
    hq.elim (le_trans · ho.begun) le_of_lt
  cases h with
  | rounds h => exact ⟨hrounds h, by simp⟩
  | loads h => exact ⟨hrounds h, by simp⟩
  | crashes => exact ⟨trivial, by simp⟩
  | unbound => exact ⟨trivial, by simp⟩
  | begins hes =>
    -- The progress is not torn, so that the batch begins at the progress on record.
    have huntorn : tornFrom false deeds = false := by simpa [Torn] using hbegan _ rfl
    exact ⟨.inl (htracks.2.mpr huntorn).ge, by simp⟩
  | applies hes =>
    exact ⟨.inr (lt_of_le_of_lt (hheld ho hq) (ho.above _ (hes ▸ List.mem_cons_self))), by simp⟩
  | fails hes hh => exact ⟨hheld ho hq, by simp⟩
  | defers hes hh => exact ⟨hq, by simp⟩
  | wrecks => exact ⟨trivial, by simp⟩
  | runsOut => exact ⟨hq, by simp⟩
  | saves hne hh =>
    exact ⟨le_refl _, fun p hp => by cases hp; exact hq.elim (lt_of_le_of_lt · hh) id⟩
  | refusesSave hne hh hq' =>
    rcases hq' with rfl | rfl
    · exact ⟨hheld ho hq, by simp⟩
    · exact ⟨trivial, by simp⟩
  | closes hes ht hq' =>
    refine ⟨?_, fun p hp => ?_⟩
    · rcases hq' with hq' | rfl
      · exact hrounds hq'
      · trivial
    · cases hp
      exact hq.elim (lt_of_le_of_lt · ht) (lt_of_lt_of_le · ho.ends)
  | refusesClose hes ht hq' =>
    rcases hq' with rfl | rfl
    · exact ⟨hheld ho hq, by simp⟩
    · exact ⟨trivial, by simp⟩
  | passes hes ht hq' => exact ⟨hrounds hq', by simp⟩
  | stays => exact ⟨hq, by simp⟩
  | skips hes =>
    exact ⟨.inr (lt_of_le_of_lt hq (ho.1.above _ (hes ▸ List.mem_cons_self))), by simp⟩
  | restarts hq' => exact ⟨hrounds hq', by simp⟩

/-- The progress on record is the one that was recorded last. -/
theorem Beat.row_eq {events : List EventRecord} {limit : Nat} {q q' : Posture} {r r' : Position}
    {d : Option Deed} (h : Beat mark events limit q r d q' r') :
    r' = (rows d.toList).head?.getD r := by
  cases h <;> rfl

end

/-- The progress that was recorded by the deeds after some others. -/
theorem rows_append (more deeds : List Deed) : rows (more ++ deeds) = rows more ++ rows deeds :=
  List.filterMap_append

/-- The progress that is recorded by at most one deed. -/
theorem rows_toList (d : Option Deed) :
    rows d.toList = [] ∨ ∃ p, d = some (.recorded p) ∧ rows d.toList = [p] := by
  cases d with
  | none => exact .inl rfl
  | some d =>
    cases d with
    | recorded p => exact .inr ⟨p, rfl, rfl⟩
    | _ => exact .inl rfl

/-! ## Runs -/

/-- What holds of the deeds, the posture and the progress of a shard along every run. -/
structure Follows (start : Position) (deeds : List Deed) (q : Posture) (row : Position) : Prop where
  tracks : q.Tracks deeds row
  last : (rows deeds ++ [start]).head? = some row
  climbs : NeverResumesTorn deeds →
    (rows deeds ++ [start]).Pairwise (· > ·) ∧ q.Climbs row

/-- A beat goes on following the progress on record. -/
theorem Follows.beat {start mark : Position} {events : List EventRecord} {limit : Nat}
    {deeds : List Deed} {q q' : Posture} {r r' : Position} {d : Option Deed}
    (hf : Follows start deeds q r) (ho : q.Ordered) (h : Beat mark events limit q r d q' r') :
    Follows start (d.toList ++ deeds) q' r' := by
  have hrow := h.row_eq
  refine ⟨h.tracks ho hf.tracks, ?_, fun hnever => ?_⟩
  · rw [rows_append, hrow]
    rcases rows_toList d with hnone | ⟨p, -, hsome⟩
    · simpa [hnone] using hf.last
    · simp [hsome]
  · have hold : NeverResumesTorn deeds := fun c earlier hsuffix =>
    -- If no batch has begun while the progress was torn, then none had before this beat.
      hnever c earlier (hsuffix.trans (List.suffix_append _ _))
    obtain ⟨hpairwise, hclimbs⟩ := hf.climbs hold
    have hbegan : ∀ c, d = some (.began c) → ¬ Torn deeds := fun c hd =>
      hnever c deeds (by rw [hd]; exact List.suffix_refl _)
    obtain ⟨hclimbs', hraises⟩ := h.climbs ho hf.tracks hbegan hclimbs
    refine ⟨?_, hclimbs'⟩
    rw [rows_append]
    rcases rows_toList d with hnone | ⟨p, hd, hsome⟩
    · simpa [hnone] using hpairwise
    · -- The progress before is the highest so far, and the new one lies above it.
      rw [hsome, List.append_assoc, List.singleton_append]
      obtain ⟨rest, hrest⟩ : ∃ rest, rows deeds ++ [start] = r :: rest :=
        ⟨_, List.eq_cons_of_mem_head? hf.last⟩
      rw [hrest] at hpairwise ⊢
      refine List.pairwise_cons.mpr ⟨fun x hx => ?_, hpairwise⟩
      rcases List.mem_cons.mp hx with rfl | hx
      · exact hraises p hd
      · exact lt_trans ((List.pairwise_cons.mp hpairwise).1 x hx) (hraises p hd)

/-- The local position of a consumer at the top of an iteration, once it is known. -/
def Consumer.cursor (c : Consumer) : Option Position :=
  match c.stage with
  | .pausing _ _ | .idle | .ended => c.position
  | .fetching committed _ => some committed
  | _ => none

/-- At the top of an iteration, tracking the progress on record means that the position is level. -/
theorem Consumer.level_cursor {c : Consumer} {deeds : List Deed} {row p : Position}
    (h : c.posture.Tracks deeds row) (hp : c.cursor = some p) :
    Level (tornFrom false deeds) p row := by
  obtain ⟨identity, stage, seenMark, seenControl, position⟩ := c
  cases stage with
  | pausing control due => obtain rfl : position = some p := hp; exact h
  | idle => obtain rfl : position = some p := hp; exact h
  | ended => obtain rfl : position = some p := hp; exact h
  | fetching committed mark => exact Option.some.inj hp ▸ h
  | _ => cases hp

/-- Every run of a shard during which nobody else writes its progress follows the progress on
record. -/
theorem Run.follows {L π : Type} [EventLog L] [LawfulLog L] [Projection π] {t u : ShardTask L π}
    {deeds : List Deed} (ht : t.Fresh) (h : Run (Alone t.consumer.identity) t deeds u) :
    Follows t.row deeds u.consumer.posture u.row := by
  rw [ShardTask.row, ShardTask.row, (h.sane ht id).identity]
  refine h.invariant (I := fun deeds q s => Follows _ deeds q (s.row t.consumer.identity)) ht id
    ?_ ?_ ?_
  · exact ⟨rfl, rfl, fun _ => ⟨List.pairwise_singleton _ _, trivial⟩⟩
  · intro deeds c s d c' s' hidentity hk ho hi hm
    exact hi.beat ho (hidentity ▸ hm.beat)
  · intro deeds q s s' hi hs
    rwa [hs.row]

/-- Along every run of a shard during which nobody else writes its progress: at the top of every
iteration, once the progress is known, the local position is not above the progress on record, and
it is the progress on record exactly if that is not torn. The progress on record is the one recorded
last, and it only goes up unless a batch begins while the progress is torn. -/
theorem cursor_eq_row_iff {L π : Type} [EventLog L] [LawfulLog L] [Projection π]
    {t u : ShardTask L π} {deeds : List Deed} (ht : t.Fresh)
    (h : Run (Alone t.consumer.identity) t deeds u) :
    (∀ p, u.consumer.cursor = some p → p ≤ u.row ∧ (p = u.row ↔ ¬ Torn deeds)) ∧
      (rows deeds ++ [t.row]).head? = some u.row ∧
        (NeverResumesTorn deeds → (rows deeds ++ [t.row]).Pairwise (· > ·)) := by
  have hf := h.follows ht
  refine ⟨fun p hp => ?_, hf.last, fun hnever => (hf.climbs hnever).1⟩
  obtain ⟨hle, hiff⟩ := Consumer.level_cursor hf.tracks hp
  exact ⟨hle, hiff.trans (by simp [Torn])⟩

/-- Skips events that fail, and takes no notice of progress that cannot be recorded. -/
def Policy.skipping : Policy :=
  ⟨[⟨.ofCategory .applyEvent, [.skipEvent]⟩, ⟨.ofCategory .progressUpdate, [.doNothing]⟩]⟩

/-- An event at which a rehearsing projection always fails. -/
def Rehearsal.poison (p : Position) : Rehearsal.Planned :=
  ⟨p, .failure (.plain .applyEvent "poison"), none⟩

/-- Two failed events are skipped, and all progress is recorded: the consumer goes on from the end
of the batch, which is on record, and the progress on record went up all the way. -/
theorem cursor_eq_row_of_skips :
    ∃ (t u : ShardTask MemoryLog Rehearsal.ScriptedProjection) (deeds : List Deed),
      t.Fresh ∧ Run (Alone t.consumer.identity) t deeds u ∧ t.row = 0 ∧ rows deeds = [3, 2, 1] ∧
        ¬ Torn deeds ∧ u.consumer.cursor = some 3 ∧ 3 = u.row := by
  let t := ShardTask.rehearsal [Rehearsal.poison 2, Rehearsal.poison 3] .skipping
  have ht : t.Fresh := ShardTask.rehearsal_fresh _ _
  have h : Run (Alone t.consumer.identity) t _ _ := Run.start.play 13
  have hcursor : (t.play 13).2.consumer.cursor = some 3 := by decide +kernel
  have hwhole : ¬ Torn ((t.play 13).1 ++ []) := by decide +kernel
  refine ⟨t, _, _, ht, h, ?_, ?_, hwhole, hcursor, ?_⟩
  · decide +kernel
  · decide +kernel
  · exact (((cursor_eq_row_iff ht h).1 3 hcursor).2).mpr hwhole

/-- Surroundings in which the next progress will be refused. -/
def Surroundings.refusing (s : Surroundings MemoryLog) : Surroundings MemoryLog :=
  { s with commons := { s.commons with log := { s.commons.log with failPersists := 1 } } }

/-- Making the log refuse progress leaves the progress on record alone. -/
theorem Surroundings.alone_refusing (shard : String) (s : Surroundings MemoryLog) :
    Alone shard s s.refusing := ⟨id, rfl, rfl⟩

/-- The progress before each of two failed events is recorded, and that after the batch is refused:
the consumer goes back to 0 while 2 is on record, and in the next batch lowers the progress on
record to 1. -/
theorem exists_torn_run :
    ∃ (t u v : ShardTask MemoryLog Rehearsal.ScriptedProjection) (deeds deeds' : List Deed),
      t.Fresh ∧ Run (Alone t.consumer.identity) t deeds u ∧ u.consumer.cursor = some 0 ∧ u.row = 2 ∧
        Run (Alone t.consumer.identity) t deeds' v ∧ rows deeds' = [1, 2, 1] := by
  let t := ShardTask.rehearsal [Rehearsal.poison 2, Rehearsal.poison 3] .skipping
  have h : Run (Alone t.consumer.identity) t _ _ := Run.start.play 12
  have hrefusing := h.elsewhere (Surroundings.alone_refusing _ _)
  refine ⟨t, _, _, _, _, ShardTask.rehearsal_fresh _ _, hrefusing.play 3, ?_, ?_,
    hrefusing.play 7, ?_⟩
  · decide +kernel
  · decide +kernel
  · decide +kernel

end Tidemark
