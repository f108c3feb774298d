import Tidemark.Proofs.Shard.Steps
import Tidemark.Rehearsal.Projection

/-!
# Runs of a shard

A `ShardTask` is a consumer with its projection and its surroundings. A `Run` is any sequence of
steps of the consumer, with anything between them that is allowed to happen elsewhere. The least
that is asked of others is that nobody else writes the progress of the shard (`Alone`).

Along every run the consumer stays coherent, and its batches stay in order (`Posture.Ordered`). What
every beat keeps and the others keep holds along every run (`Run.invariant`).
-/

namespace Tidemark

open LogView

/-! ## Batches in order -/

/-- The events of a batch lie in order between what was handled and where the batch leads. -/
structure Batch.Ordered (b : Batch) : Prop where
  ascending : b.events.Pairwise (·.sequence < ·.sequence)
  above : ∀ e ∈ b.events, b.handled < e.sequence
  below : ∀ e ∈ b.events, e.sequence ≤ b.target
  begun : b.committed ≤ b.handled
  ends : b.handled ≤ b.target
  ahead : b.committed < b.target
  read : b.target ≤ b.mark

/-- Where a batch is under way, it is in order. -/
def Posture.Ordered : Posture → Prop
  | .free _ | .lost => True
  | .bound committed mark => committed < mark
  | .busy b => b.Ordered
  | .stuck b saved => b.Ordered ∧ b.committed ≤ saved ∧ saved ≤ b.handled

/-- A consumer that goes into a round is in order. -/
theorem Rounds.ordered {mark : Position} {position : Option Position} {q : Posture}
    (h : Rounds mark position q) : q.Ordered := by
  cases h with
  | rests => trivial
  | fetches hp hmark => exact hmark

/-- A batch stays in order when its first event has been dealt with. -/
theorem Batch.Ordered.tail {b : Batch} (h : b.Ordered) {e : EventRecord} {es : List EventRecord}
    (hevents : b.events = e :: es) (n : Nat) :
    { b with events := es, handled := e.sequence, applied := n : Batch }.Ordered := by
  obtain ⟨hascending, habove, hbelow, hbegun, hends, hahead, hread⟩ := h
  rw [hevents] at hascending habove hbelow
  obtain ⟨he, hes⟩ := List.pairwise_cons.mp hascending
  exact ⟨hes, he, fun x hx => hbelow x (List.mem_cons_of_mem e hx),
    le_trans hbegun (le_of_lt (habove e List.mem_cons_self)), hbelow e List.mem_cons_self, hahead,
    hread⟩

/-- The target of a batch lies at or above its events and at or below its mark. -/
theorem Consumer.target_spec {events : List EventRecord} (limit : Nat) {mark : Position}
    (hascending : events.Pairwise (·.sequence < ·.sequence))
    (hmark : ∀ e ∈ events, e.sequence ≤ mark) :
    (∀ e ∈ events, e.sequence ≤ target events limit mark) ∧ target events limit mark ≤ mark ∧
      (target events limit mark = mark ∨
        limit ≤ events.length ∧ ∃ e ∈ events, target events limit mark = e.sequence) := by
  unfold target
  cases hlast : events.getLast? with
  | none => exact ⟨hmark, le_refl _, .inl rfl⟩
  | some last =>
    have hmem : last ∈ events := List.mem_of_getLast? hlast
    dsimp only
    split_ifs with hfull
    · refine ⟨fun e he => ?_, hmark last hmem, .inr ⟨hfull, last, hmem, rfl⟩⟩
      -- In a full batch the target is the last event, which lies above the others.
      obtain ⟨init, rfl⟩ := List.getLast?_eq_some_iff.mp hlast
      rcases List.mem_append.mp he with he | he
      · exact le_of_lt ((List.pairwise_append.mp hascending).2.2 e he last (by simp))
      · rw [List.mem_singleton.mp he]
    · exact ⟨hmark, le_refl _, .inl rfl⟩

/-- A batch is in order when it is fetched. -/
theorem Batch.ordered_of_fetched {events es : List EventRecord} {limit : Nat} {c m : Position}
    (begun : Moment) (hevents : events.Pairwise (·.sequence < ·.sequence)) (hcm : c < m)
    (hes : es = (eventsWithin c m events).take limit) :
    { committed := c, mark := m, begun := begun, events := es,
      target := Consumer.target es limit m, handled := c : Batch }.Ordered := by
  have hmem : ∀ e ∈ es, c < e.sequence ∧ e.sequence ≤ m := fun e he =>
    (mem_eventsWithin.mp (List.mem_of_mem_take (hes ▸ he))).2
  have hascending : es.Pairwise (·.sequence < ·.sequence) :=
    hes ▸ (hevents.filter _).sublist (List.take_sublist _ _)
  obtain ⟨hbelow, hread, htarget⟩ :=
    Consumer.target_spec limit hascending fun e he => (hmem e he).2
  -- Both the mark and the events of the batch lie above where it begins.
  have hahead : c < Consumer.target es limit m := by
    rcases htarget with heq | ⟨-, e, he, heq⟩
    · rwa [heq]
    · rw [heq]; exact (hmem e he).1
  exact ⟨hascending, fun e he => (hmem e he).1, hbelow, le_refl _, le_of_lt hahead, hahead, hread⟩

/-- Every beat keeps batches in order. -/
theorem Beat.ordered {mark : Position} {events : List EventRecord} {limit : Nat} {q q' : Posture}
    {r r' : Position} {d : Option Deed} (h : Beat mark events limit q r d q' r')
    (hevents : events.Pairwise (·.sequence < ·.sequence)) (hq : q.Ordered) : q'.Ordered := by
  cases h with
  | rounds h => exact h.ordered
  | loads h => exact h.ordered
  | crashes => trivial
  | unbound => trivial
  | begins hes => exact Batch.ordered_of_fetched _ hevents hq hes
  | applies hes => exact hq.tail hes _
  | fails hes hh => exact ⟨hq, le_refl _, hq.begun⟩
  | defers => exact hq
  | wrecks => trivial
  | runsOut => exact hq
  | saves hne hh => exact ⟨hq, hq.begun, le_refl _⟩
  | refusesSave hne hh hq' =>
    rcases hq' with rfl | rfl
    · exact ⟨hq, le_refl _, hq.begun⟩
    · trivial
  | closes hes ht hq' =>
    rcases hq' with hq' | rfl
    · exact hq'.ordered
    · trivial
  | refusesClose hes ht hq' =>
    rcases hq' with rfl | rfl
    · exact ⟨hq, le_refl _, hq.begun⟩
    · trivial
  | passes hes ht hq' => exact hq'.ordered
  | stays => exact hq
  | skips hes => exact hq.1.tail hes _
  | restarts hq' => exact hq'.ordered

/-! ## Tasks and runs -/

/-- A consumer with its projection and its surroundings. -/
structure ShardTask (L π : Type) where
  consumer : Consumer
  projection : π
  surroundings : Surroundings L

namespace ShardTask

variable {L π : Type}

/-- The published mark. -/
def mark (t : ShardTask L π) : Position := t.surroundings.mark

/-- The progress of the shard on record. -/
def row [LogView L] (t : ShardTask L π) : Position := t.surroundings.row t.consumer.identity

/-- The events that can be fetched. -/
def events [LogView L] (t : ShardTask L π) : List EventRecord := t.surroundings.events

/-- A task that has not taken a step, over a log that is in order. -/
structure Fresh [LogView L] (t : ShardTask L π) : Prop where
  stage : t.consumer.stage = .opening
  position : t.consumer.position = none
  kept : Kept t.surroundings.commons.log

/-- A fresh task is between batches and does not know its progress. -/
theorem Fresh.posture [LogView L] {t : ShardTask L π} (h : t.Fresh) :
    t.consumer.posture = .free none := by
  simp [Consumer.posture, h.stage, h.position]

variable [EventLog L] [Projection π]

/-- The next step of the consumer. -/
def step (t : ShardTask L π) (now : Moment) : ShardTask L π :=
  let (c, p, s) := t.consumer.step t.projection t.surroundings now
  ⟨c, p, s⟩

/-- The deed of the next step, if there is one. -/
def deed (t : ShardTask L π) (now : Moment) : Option Deed :=
  t.consumer.deed t.projection t.surroundings now

end ShardTask

section

variable {L : Type} [LogView L]

/-- What the others do that do not write the progress of the shard. -/
structure Alone (shard : String) (s s' : Surroundings L) : Prop where
  kept : Kept s.commons.log → Kept s'.commons.log
  name : s'.rowName shard = s.rowName shard
  row : s'.row shard = s.row shard

/-- What the others do that do not write the progress of the shard, do not lower the published mark,
and do not touch what is stored up to it. -/
structure Published (shard : String) (s s' : Surroundings L) : Prop extends Alone shard s s' where
  mark : s.mark ≤ s'.mark
  events : ∀ e : EventRecord, e.sequence ≤ s.mark → (e ∈ s'.events ↔ e ∈ s.events)

end

/-- The runs of a shard from a task on, with the deeds of the consumer, the last one first. Between
the steps of the consumer anything happens that `rely` allows. -/
inductive Run {L π : Type} [EventLog L] [Projection π]
    (rely : Surroundings L → Surroundings L → Prop) (t : ShardTask L π) :
    List Deed → ShardTask L π → Prop where
  | start : Run rely t [] t
  | worked {deeds : List Deed} {u : ShardTask L π} (h : Run rely t deeds u) (now : Moment) :
    Run rely t ((u.deed now).toList ++ deeds) (u.step now)
  | elsewhere {deeds : List Deed} {u : ShardTask L π} (h : Run rely t deeds u)
    {s : Surroundings L} (hs : rely u.surroundings s) :
    Run rely t deeds { u with surroundings := s }

namespace Run

variable {L π : Type} [EventLog L] [LawfulLog L] [Projection π]
  {rely : Surroundings L → Surroundings L → Prop} {t u : ShardTask L π} {deeds : List Deed}

/-- What holds of the task itself along every run. -/
structure Sane (t u : ShardTask L π) : Prop where
  coherent : u.consumer.Coherent
  ordered : u.consumer.posture.Ordered
  kept : Kept u.surroundings.commons.log
  identity : u.consumer.identity = t.consumer.identity
  name : u.surroundings.rowName t.consumer.identity = t.surroundings.rowName t.consumer.identity

/-- A sane task takes its step by a beat. -/
theorem Sane.moves (h : Sane t u) (now : Moment) :
    Moves u.consumer u.surroundings (u.deed now) (u.step now).consumer (u.step now).surroundings :=
  Consumer.step_moves u.projection u.surroundings now h.coherent h.kept

/-- Every task of a run is sane. -/
theorem sane (ht : t.Fresh)
    (hrely : ∀ {s s'}, rely s s' → Alone t.consumer.identity s s') (h : Run rely t deeds u) :
    Sane t u := by
  induction h with
  | start =>
    refine ⟨by simp [Consumer.Coherent, ht.stage], ?_, ht.kept, rfl, rfl⟩
    rw [ht.posture]
    trivial
  | worked _ now ih =>
    have hm := ih.moves now
    refine ⟨hm.coherent, hm.beat.ordered (LawfulLog.stored_pairwise ih.kept) ih.ordered,
      hm.kept ih.kept, hm.identity.trans ih.identity, ?_⟩
    rw [← ih.name, ← ih.identity]
    exact hm.name
  | elsewhere _ hs ih =>
    exact ⟨ih.coherent, ih.ordered, (hrely hs).kept ih.kept, ih.identity,
      (hrely hs).name.trans ih.name⟩

/-- What holds at the beginning, is kept by every beat and is kept by the others holds along every
run. -/
theorem invariant {I : List Deed → Posture → Surroundings L → Prop} (ht : t.Fresh)
    (hrely : ∀ {s s'}, rely s s' → Alone t.consumer.identity s s')
    (start : I [] (.free none) t.surroundings)
    (worked : ∀ {deeds c s d c' s'}, c.identity = t.consumer.identity → Kept s.commons.log →
      c.posture.Ordered → I deeds c.posture s → Moves c s d c' s' →
        I (d.toList ++ deeds) c'.posture s')
    (elsewhere : ∀ {deeds q s s'}, I deeds q s → rely s s' → I deeds q s')
    (h : Run rely t deeds u) : I deeds u.consumer.posture u.surroundings := by
  induction h with
  | start => rwa [ht.posture]
  | worked h now ih =>
    have hsane := h.sane ht hrely
    exact worked hsane.identity hsane.kept hsane.ordered ih (hsane.moves now)
  | elsewhere _ hs ih => exact elsewhere ih hs

end Run

/-! ## Rehearsals -/

/-- Takes a number of steps at the beginning of the clock: the deeds, the last one first, and the
task afterwards. -/
def ShardTask.play {L π : Type} [EventLog L] [Projection π] (t : ShardTask L π) :
    Nat → List Deed × ShardTask L π
  | 0 => ([], t)
  | n + 1 =>
    let (deeds, u) := (t.step 0).play n
    (deeds ++ (t.deed 0).toList, u)

/-- A run goes on with any number of steps of the consumer. -/
theorem Run.play {L π : Type} [EventLog L] [Projection π]
    {rely : Surroundings L → Surroundings L → Prop} {t u : ShardTask L π} {deeds : List Deed}
    (h : Run rely t deeds u) (n : Nat) : Run rely t ((u.play n).1 ++ deeds) (u.play n).2 := by
  induction n generalizing u deeds with
  | zero => exact h
  | succ n ih =>
    simp only [ShardTask.play, List.append_assoc]
    exact ih (h.worked 0)

/-- A shard that rehearses with the events at positions 1 to 3, all of them published, under the
given policy. -/
def ShardTask.rehearsal (plan : List Rehearsal.Planned) (policy : Policy) :
    ShardTask MemoryLog Rehearsal.ScriptedProjection where
  consumer := { identity := "T:All" }
  projection := { name := "T", plan := plan }
  surroundings :=
    { commons :=
        { log :=
            { highest := 3,
              events := [1, 2, 3].map fun p => (p, ⟨"", [], ⟨0, false⟩, false⟩) }
          tracker := { mark := ⟨3, 1⟩ }
          origin := ⟨0, false⟩ }
      supervisor :=
        { policy := policy, shards := .ofNames [.whole "T"], commands := default }
      batchSize := 10
      shutdown := false }

/-- A rehearsal begins fresh. -/
theorem ShardTask.rehearsal_fresh (plan : List Rehearsal.Planned) (policy : Policy) :
    (rehearsal plan policy).Fresh :=
  ⟨rfl, rfl, by simp [Kept, rehearsal, MemoryLog.Ascending]⟩

end Tidemark
