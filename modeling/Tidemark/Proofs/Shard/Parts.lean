import Tidemark.Proofs.Shard.Beat

/-!
# Where the parts of a step lead

A step of a consumer is put together from a few parts: going into the next round, giving up a batch,
turning to an event, acting on the continuation of a failure. Each of them leads to certain postures
and keeps what matters for the events (`Leads`).
-/

namespace Tidemark

open LogView

variable {L : Type} [LogView L]

/-- A part of a step of the consumer of a shard leads to a posture, and keeps what matters for its
events. -/
structure Leads (shard : String) (s : Surroundings L) (Q : Posture → Prop)
    (out : Consumer.Stepped L) : Prop where
  identity : out.1.identity = shard
  coherent : out.1.Coherent
  posture : Q out.1.posture
  keeps : s.Keeps shard out.2

namespace Leads

variable {shard : String} {s s' : Surroundings L} {Q Q' : Posture → Prop}
  {out : Consumer.Stepped L}

/-- A part of a step leads where it leads after something that keeps what matters. -/
theorem after (h : Leads shard s' Q out) (hk : s.Keeps shard s') : Leads shard s Q out :=
  ⟨h.identity, h.coherent, h.posture, hk.trans h.keeps⟩

/-- A part of a step leads to whatever holds where it leads. -/
theorem imp (h : Leads shard s Q out) (hQ : ∀ q, Q q → Q' q) : Leads shard s Q' out :=
  ⟨h.identity, h.coherent, hQ _ h.posture, h.keeps⟩

end Leads

namespace Consumer

variable (c : Consumer) (s : Surroundings L)

/-- A consumer that ends keeps its position. -/
theorem finish_leads (mark : Position) :
    Leads c.identity s (Rounds mark c.position) (c.finish s) where
  identity := rfl
  coherent := trivial
  posture := .rests
  keeps := ((s.keeps_setStatus c.identity c.identity .stopped).trans
    (Surroundings.keeps_announce _ _ _ _)).trans (Surroundings.keeps_leave _ _)

/-- A consumer that crashes is lost. -/
theorem crash_leads : Leads c.identity s (· = .lost) (c.crash s) :=
  ⟨rfl, trivial, rfl, Surroundings.keeps_leave _ _⟩

/-- A consumer that compares its position with the mark goes into a round with it. -/
theorem weigh_leads {p : Position} (hp : c.position = some p) :
    Leads c.identity s (Rounds s.mark c.position) (c.weigh s p) := by
  unfold weigh
  dsimp only
  split_ifs with hmark
  · exact ⟨rfl, trivial, .rests, .refl _ _⟩
  · exact ⟨rfl, hp, .fetches hp (not_le.mp hmark), .refl _ _⟩

/-- A consumer goes into the next round with its position. -/
theorem turn_leads : Leads c.identity s (Rounds s.mark c.position) (c.turn s) := by
  let seen : Consumer := { c with seenControl := (s.handle c.identity).control.version }
  unfold turn
  split_ifs
  · exact c.finish_leads s s.mark
  · dsimp only
    split
    · exact seen.finish_leads s s.mark
    · exact ⟨rfl, trivial, .rests, (s.keeps_setStatus _ _ _).trans
        (Surroundings.keeps_announce _ _ _ _)⟩
    · split
      · exact ⟨rfl, by assumption, .rests, .refl _ _⟩
      · rename_i hp
        exact seen.weigh_leads s hp

/-- A consumer whose pause has elapsed goes into the next round with its position. -/
theorem resume_leads (elapsed : Control) :
    Leads c.identity s (Rounds s.mark c.position) (c.resume s elapsed) := by
  refine (c.turn_leads _).after (((s.keeps_modify _ fun h _ => ?_).trans
    (Surroundings.keeps_setStatus _ _ _ _)).trans (Surroundings.keeps_announce _ _ _ _))
  unfold ShardHandle.resumeAfter
  split_ifs <;> rfl

/-- A consumer that gives up a batch goes into the next round with the position that is held to be
on record. -/
theorem restart_leads (saved : Position) (flow : Flow) :
    Leads c.identity s (Rounds s.mark (some saved)) (c.restart s saved flow) := by
  cases flow with
  | exit => exact finish_leads { c with position := some saved } s s.mark
  | next => exact turn_leads { c with position := some saved } s
  | refetch => exact turn_leads { c with position := some saved } s

/-- A consumer that ends a batch goes into the next round with the progress after it, unless it
crashes. -/
theorem commit_leads (now : Moment) (b : Batch) (saved : Position) :
    Leads c.identity s (fun q => Rounds s.mark (some saved) q ∨ q = .lost)
      (c.commit s now b saved) := by
  obtain ⟨f, hf⟩ := c.commit_eq s now b saved
  let reset := (s.modify c.identity (·.resetAttempts)).measure f
  have hkeeps : s.Keeps c.identity reset :=
    (s.keeps_modify (f := (·.resetAttempts)) _ fun _ _ => rfl).trans
      (Surroundings.keeps_measure _ _ _)
  rw [hf]
  dsimp only
  split_ifs
  · exact ((turn_leads { c with position := some saved } _).imp fun _ hq => .inl hq).after
      (hkeeps.trans (Surroundings.keeps_announce c.identity reset c.identity .updated))
  · exact ((crash_leads c reset).imp fun _ hq => .inr hq).after hkeeps

variable {π : Type} [Projection π] (p : π) {mark r : Position} {events : List EventRecord}
  {limit : Nat}

/-- A consumer that turns to the events of a batch is busy with it. -/
theorem advance_leads (b : Batch) (now : Moment) :
    Leads c.identity s (· = .busy b) (c.advance p b now, s) := by
  unfold advance
  split
  · exact ⟨rfl, by assumption, rfl, .refl _ _⟩
  · exact ⟨rfl, trivial, rfl, .refl _ _⟩

/-- A consumer may stay where a failure has interrupted it. -/
theorem beat_interrupted (i : Interrupted) :
    Beat mark events limit (i.posture c.position) r none (i.posture c.position) r := by
  cases i with
  | loading => exact .rounds .rests
  | fetching => exact .rounds .rests
  | saving b cause => exact .stays
  | applying b saved => exact .stays
  | closing b => exact .stays

/-- What a part of a step must lead to that follows a failure, by a deed. -/
abbrev Recovers (events : List EventRecord) (limit : Nat) (r : Position) (i : Interrupted)
    (deed : Option Deed) (out : Stepped L) : Prop :=
  Leads c.identity s (fun q => Beat s.mark events limit (i.posture c.position) r deed q r) out

/-- A consumer that does not skip the event goes into the next round. -/
theorem goOn_recovers (now : Moment) (i : Interrupted) {flow : Flow} (hflow : flow ≠ .next) :
    c.Recovers s events limit r i none (c.goOn p s now i flow) := by
  cases i with
  | loading =>
    simp only [goOn]
    split_ifs
    · exact (c.finish_leads s s.mark).imp fun _ hq => .rounds hq
    · exact (c.turn_leads s).imp fun _ hq => .rounds hq
  | fetching =>
    simp only [goOn]
    split_ifs
    · exact (c.finish_leads s s.mark).imp fun _ hq => .rounds hq
    · exact (c.turn_leads s).imp fun _ hq => .rounds hq
  | saving b cause =>
    simp only [goOn, if_neg hflow]
    exact (c.restart_leads s b.committed flow).imp fun _ hq => .restarts hq
  | applying b saved =>
    simp only [goOn, if_neg hflow]
    exact (c.restart_leads s saved flow).imp fun _ hq => .restarts hq
  | closing b => exact (c.restart_leads s b.committed flow).imp fun _ hq => .restarts hq

/-- A consumer that counts the failed event as dealt with skips it. -/
theorem goOn_next_recovers (now : Moment) {i : Interrupted} (hi : i.Coherent) :
    c.Recovers s events limit r i i.skipped (c.goOn p s now i .next) := by
  cases i with
  | loading => exact (c.turn_leads s).imp fun _ hq => .rounds hq
  | fetching => exact (c.turn_leads s).imp fun _ hq => .rounds hq
  | saving b cause => exact ⟨rfl, hi.1, .stays, .refl _ _⟩
  | applying b saved =>
    -- Only a batch with an event can be interrupted at an event.
    cases hevents : b.events with
    | nil => exact absurd hevents hi
    | cons e rest =>
      have hkeeps : s.Keeps c.identity
          ((s.measure (·.recordEventSkipped c.identity)).announce c.identity .skipped) :=
        (s.keeps_measure _ _).trans (Surroundings.keeps_announce _ _ _ _)
      simp only [goOn, if_pos, hevents, Interrupted.skipped, List.head?_cons, Option.map_some]
      exact ((c.advance_leads _ p _ now).imp fun q hq => hq ▸ .skips hevents).after hkeeps
  | closing b => exact (c.restart_leads s b.committed .next).imp fun _ hq => .restarts hq

/-- A consumer that pauses goes into the next round, unless the end of the pause cannot be
represented. -/
theorem pause_recovers (now : Moment) (i : Interrupted) {k : Continuation} {d : Duration}
    (hk : k = .pauseShard d ∨ k = .pauseAllShards d) :
    c.Recovers s events limit r i none (c.act p s now i (.ok k)) := by
  rcases c.act_pause p s now i hk with ⟨due, -, hpaused⟩ | ⟨-, hcrashed⟩
  · rw [hpaused]
    refine (c.goOn_recovers _ p now i (by decide)).after (s.keeps_modify _ fun old hold => ?_)
    simp [Surroundings.handle, hold]
  · rw [hcrashed]
    exact (c.crash_leads s).imp fun _ hq => hq ▸ .crashes

/-- A consumer acts on the continuation of a failure. -/
theorem act_recovers (now : Moment) {i : Interrupted} (hi : i.Coherent)
    (outcome : Except Error Continuation) :
    c.Recovers s events limit r i (i.resolved outcome) (c.act p s now i outcome) := by
  have hstop : c.Recovers s events limit r i none
      (c.goOn p (s.modify c.identity (·.stop)) now i .exit) :=
    (c.goOn_recovers _ p now i (by decide)).after (s.keeps_modify (f := (·.stop)) _ fun _ _ => rfl)
  cases outcome with
  | error e => exact hstop
  | ok k =>
    cases k with
    | skipEvent => exact c.goOn_next_recovers s p now hi
    | doNothing => exact c.goOn_next_recovers s p now hi
    | retryLater d =>
      simp only [act]
      split_ifs
      · exact c.goOn_recovers s p now i (by decide)
      · exact ⟨rfl, hi, c.beat_interrupted i, .refl _ _⟩
    | pauseShard d => exact c.pause_recovers s p now i (.inl rfl)
    | pauseAllShards d => exact c.pause_recovers s p now i (.inr rfl)
    | stopShard => exact hstop
    | stopAllShards => exact hstop

end Consumer

end Tidemark
