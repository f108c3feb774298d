import Tidemark.Proofs.Shard.Parts

/-!
# The steps of a consumer

Every step of a consumer is one beat, by the deed that it does, and keeps everything else that
matters for the events (`step_moves`).
-/

namespace Tidemark

open LogView

variable {L : Type} [LogView L]

/-- A step of a consumer that does a deed: one beat, which changes the progress of its own shard at
most and keeps everything else that matters for events. -/
structure Moves (c : Consumer) (s : Surroundings L) (deed : Option Deed) (c' : Consumer)
    (s' : Surroundings L) : Prop where
  identity : c'.identity = c.identity
  coherent : c'.Coherent
  kept : Kept s.commons.log → Kept s'.commons.log
  name : s'.rowName c.identity = s.rowName c.identity
  mark : s'.mark = s.mark
  events : s'.events = s.events
  others : ∀ i, i ≠ s.rowName c.identity → recorded s'.commons.log i = recorded s.commons.log i
  beat : Beat s.mark s.events (max s.batchSize 1) c.posture (s.row c.identity) deed c'.posture
    (s'.row c.identity)

/-- A part of a step that leads on by a beat is a step that leaves the progress as it is. -/
theorem Leads.moves {c : Consumer} {s : Surroundings L} {Q : Posture → Prop} {deed : Option Deed}
    {out : Consumer.Stepped L} (h : Leads c.identity s Q out)
    (hQ : ∀ q, Q q → Beat s.mark s.events (max s.batchSize 1) c.posture (s.row c.identity) deed q
      (s.row c.identity)) :
    Moves c s deed out.1 out.2 where
  identity := h.identity
  coherent := h.coherent
  kept := h.keeps.view.kept
  name := h.keeps.name
  mark := h.keeps.mark
  events := h.keeps.view.stored
  others i _ := by rw [h.keeps.view.recorded]
  beat := by
    rw [h.keeps.row]
    exact hQ _ h.posture

/-- A part of a step that follows the recording of progress is a step that changes the progress. -/
theorem Leads.moves_of_records {c : Consumer} {s s' : Surroundings L} {Q : Posture → Prop}
    {deed : Option Deed} {p : Position} {out : Consumer.Stepped L} (h : Leads c.identity s' Q out)
    (hr : s.Records c.identity p s')
    (hQ : ∀ q, Q q → Beat s.mark s.events (max s.batchSize 1) c.posture (s.row c.identity) deed q
      p) :
    Moves c s deed out.1 out.2 where
  identity := h.identity
  coherent := h.coherent
  kept := h.keeps.view.kept ∘ hr.kept
  name := h.keeps.name.trans hr.name
  mark := h.keeps.mark.trans hr.mark
  events := h.keeps.view.stored.trans hr.events
  others i hi := by rw [h.keeps.view.recorded, hr.recorded, Function.update_of_ne hi]
  beat := by
    have hrow : out.2.row c.identity = p := by
      rw [h.keeps.row, Surroundings.row, hr.name, hr.recorded, Function.update_self]
    rw [hrow]
    exact hQ _ h.posture

namespace Consumer

variable {L π : Type} [EventLog L] [LawfulLog L] [Projection π] (c : Consumer) (p : π)
  (s : Surroundings L) (now : Moment)

/-- A call of the log that fails interrupts the consumer, or crashes it. -/
theorem proceed_error_leads {α : Type} {i : Interrupted} (hi : i.Coherent) (category : Category)
    (fault : Fault) (k : α → Surroundings L → Stepped L) :
    Leads c.identity s (fun q => q = i.posture c.position ∨ q = .lost)
      (c.proceed i category (.error fault, s) k) := by
  cases fault with
  | error e => exact ⟨rfl, hi, .inl rfl, .refl _ _⟩
  | crash cause => exact (c.crash_leads s).imp fun _ hq => .inr hq

section

variable {identity : String} {seenMark seenControl : Nat} {position : Option Position}

/-- A consumer that begins goes into its first round. -/
theorem moves_opening :
    let c : Consumer := ⟨identity, .opening, seenMark, seenControl, position⟩
    Moves c s none (c.stepAside p s now).1 (c.stepAside p s now).2 := by
  intro c
  rw [c.stepAside_opening rfl]
  exact (((c.begun s).turn_leads (s.begun identity)).after (s.keeps_begun identity)).moves (c := c)
    fun q hq => .rounds hq

/-- A consumer that sits out a pause goes into the next round, or goes on waiting. -/
theorem moves_pausing {elapsed : Control} {due : Moment} :
    let c : Consumer := ⟨identity, .pausing elapsed due, seenMark, seenControl, position⟩
    Moves c s none (c.stepAside p s now).1 (c.stepAside p s now).2 := by
  intro c
  have hleads : Leads identity s (Rounds s.mark position) (c.stepAside p s now) := by
    simp only [stepAside, c]
    split_ifs
    · exact c.finish_leads s s.mark
    · exact c.turn_leads s
    · exact c.resume_leads s elapsed
    · exact ⟨rfl, trivial, .rests, .refl _ _⟩
  exact hleads.moves (c := c) fun q hq => .rounds hq

/-- A consumer that loads its progress goes into a round with it. -/
theorem moves_loading :
    let c : Consumer := ⟨identity, .loading, seenMark, seenControl, none⟩
    Moves c s none (c.stepAside p s now).1 (c.stepAside p s now).2 := by
  intro c
  cases h : s.call now (EventLog.lastPersistedMark (s.handle identity).name) with
  | mk outcome s₁ =>
    have hkeeps := s.keeps_call identity h LawfulLog.frame_load
    simp only [stepAside, c, h]
    cases outcome with
    | error fault =>
      refine ((c.proceed_error_leads s₁ (i := .loading) trivial _ fault _).after hkeeps).moves ?_
      rintro q (rfl | rfl)
      · exact .rounds .rests
      · exact .crashes
    | ok loaded =>
      -- What is loaded is the progress on record, which loading leaves as it is.
      obtain ⟨saved, updated⟩ := loaded
      have hsaved : saved = s.row identity := by
        obtain ⟨log, hlog, -⟩ := Surroundings.call_eq h
        exact LawfulLog.load_eq hlog
      have hmodified := (s₁.keeps_modify (i := identity) (f := ({ · with position := saved }))
        identity fun _ _ => rfl).trans (Surroundings.keeps_announce identity _ identity .started)
      refine ((weigh_leads { c with position := some saved } _ rfl).after
        (hkeeps.trans hmodified)).moves (c := c) fun q hq => .loads ?_
      rwa [← hkeeps.mark, ← hmodified.mark, ← hsaved]

/-- A consumer that was idle goes into the next round. -/
theorem moves_idle :
    let c : Consumer := ⟨identity, .idle, seenMark, seenControl, position⟩
    Moves c s none (c.stepAside p s now).1 (c.stepAside p s now).2 := by
  intro c
  exact (c.turn_leads s).moves fun q hq => .rounds hq

/-- A consumer fetches a batch. -/
theorem moves_fetching {committed mark : Position} (hk : Kept s.commons.log) :
    let c : Consumer := ⟨identity, .fetching committed mark, seenMark, seenControl, some committed⟩
    Moves c s (c.deed p s now) (c.stepAside p s now).1 (c.stepAside p s now).2 := by
  intro c
  cases h : s.call now (EventLog.fetchEvents committed mark (max s.batchSize 1)) with
  | mk outcome s₁ =>
    have hkeeps := s.keeps_call identity h LawfulLog.frame_fetch
    simp only [stepAside, deed, c, h]
    cases outcome with
    | error fault =>
      refine ((c.proceed_error_leads s₁ (i := .fetching) trivial _ fault _).after hkeeps).moves ?_
      rintro q (rfl | rfl)
      · exact .unbound
      · exact .crashes
    | ok fetched =>
      -- The batch holds the first events within its bounds, as the law of the log says.
      obtain ⟨log, hlog, -⟩ := Surroundings.call_eq h
      have hfetched := LawfulLog.fetch_eq hk hlog
      exact ((c.advance_leads s₁ p _ now).after hkeeps).moves fun q hq => hq ▸ .begins hfetched

/-- A consumer records the progress before an event that failed. -/
theorem moves_saving {b : Batch} {cause : Failure} (hb : b.events ≠ [] ∧ b.committed < b.handled) :
    let c : Consumer := ⟨identity, .saving b cause, seenMark, seenControl, position⟩
    Moves c s (c.deed p s now) (c.stepAside p s now).1 (c.stepAside p s now).2 := by
  intro c
  cases h : s.call now (EventLog.persistMark (s.handle identity).name b.handled) with
  | mk outcome s₁ =>
    simp only [stepAside, deed, c, h]
    cases outcome with
    | error fault =>
      have hkeeps := s.keeps_call identity h LawfulLog.persist_error
      exact ((c.proceed_error_leads s₁ (i := .saving b cause) hb _ fault _).after hkeeps).moves
        fun q hq => .refusesSave hb.1 hb.2 hq
    | ok updated =>
      have hmodified := s₁.keeps_modify (i := identity) (f := ({ · with position := b.handled }))
        identity fun _ _ => rfl
      have hleads : Leads identity s₁ (· = .stuck b b.handled)
        (c.at_ (.failing (.applying b b.handled) cause),
          s₁.modify identity ({ · with position := b.handled })) := ⟨rfl, hb.1, rfl, hmodified⟩
      exact hleads.moves_of_records (c := c) (Surroundings.records_call h)
        fun q hq => hq ▸ .saves hb.1 hb.2

/-- A consumer records the progress after a batch. -/
theorem moves_closing {b : Batch} (hb : b.events = []) :
    let c : Consumer := ⟨identity, .closing b, seenMark, seenControl, position⟩
    Moves c s (c.deed p s now) (c.stepAside p s now).1 (c.stepAside p s now).2 := by
  intro c
  simp only [stepAside, deed, c]
  split_ifs with htarget
  · refine (c.commit_leads s now b b.committed).moves ?_
    rintro q (hq | rfl)
    · exact .passes hb htarget hq
    · exact .crashes
  · -- The batch leads further than where it began, so that its end is recorded.
    rw [not_le] at htarget
    cases h : s.call now (EventLog.persistMark (s.handle identity).name b.target) with
    | mk outcome s₁ =>
      cases outcome with
      | error fault =>
        have hkeeps := s.keeps_call identity h LawfulLog.persist_error
        exact ((c.proceed_error_leads s₁ (i := .closing b) hb _ fault _).after hkeeps).moves
          fun q hq => .refusesClose hb htarget hq
      | ok updated =>
        have hmodified := s₁.keeps_modify (i := identity) (f := ({ · with position := b.target }))
          identity fun _ _ => rfl
        have hrecords := Surroundings.records_call h
        have hleads := (c.commit_leads _ now b b.target).after hmodified
        refine hleads.moves_of_records (c := c) hrecords fun q hq => .closes hb htarget ?_
        rwa [← hrecords.mark, ← hmodified.mark]

/-- A consumer reports a failure. -/
theorem moves_failing {i : Interrupted} {e : Failure} (hi : i.Coherent) :
    let c : Consumer := ⟨identity, .failing i e, seenMark, seenControl, position⟩
    Moves c s none (c.stepAside p s now).1 (c.stepAside p s now).2 := by
  intro c
  have hleads : Leads identity s (· = i.posture position) (c.stepAside p s now) :=
    ⟨rfl, hi, rfl, s.keeps_report identity identity e⟩
  exact hleads.moves (c := c) fun q hq => hq ▸ c.beat_interrupted i

/-- A consumer carries its report on, or acts on the continuation. -/
theorem moves_reporting {i : Interrupted} {report : Reporting} (hi : i.Coherent) :
    let c : Consumer := ⟨identity, .reporting i report, seenMark, seenControl, position⟩
    Moves c s (c.deed p s now) (c.stepAside p s now).1 (c.stepAside p s now).2 := by
  intro c
  cases report with
  | done outcome => exact (c.act_recovers s p now hi outcome).moves fun q hq => hq
  | posting k present =>
    have hleads : Leads identity s (· = i.posture position) (c.stepAside p s now) :=
      ⟨rfl, hi, rfl, s.keeps_reporting identity (.posting k present) now⟩
    exact hleads.moves (c := c) fun q hq => hq ▸ c.beat_interrupted i

/-- A consumer that has waited after a failure goes on. -/
theorem moves_backingOff {i : Interrupted} {due : Moment} :
    let c : Consumer := ⟨identity, .backingOff i due, seenMark, seenControl, position⟩
    Moves c s none (c.stepAside p s now).1 (c.stepAside p s now).2 := by
  intro c
  simp only [stepAside, c]
  split_ifs
  · exact (c.goOn_recovers s p now i (by decide)).moves fun q hq => hq
  · exact (c.goOn_recovers s p now i (by decide)).moves fun q hq => hq

/-- A consumer tries the first event of a batch. -/
theorem moves_applying {b : Batch} {due : Moment} :
    let c : Consumer := ⟨identity, .applying b due, seenMark, seenControl, position⟩
    Moves c s (c.deed p s now) (c.step p s now).1 (c.step p s now).2.2 := by
  intro c
  cases hevents : b.events with
  | nil =>
    have hleads : Leads identity s (· = .busy b) (c.at_ (.closing b), s) :=
      ⟨rfl, hevents, rfl, .refl _ _⟩
    simp only [step, deed, c, hevents, List.head?_nil, Option.map_none]
    exact hleads.moves (c := c) fun q hq => hq ▸ .runsOut hevents
  | cons e rest =>
    simp only [step, deed, c, hevents, List.head?_cons, Option.map_some]
    cases (Projection.apply p e now).1 with
    | ok => exact (c.advance_leads s _ _ now).moves fun q hq => hq ▸ .applies hevents
    | crashed => exact (c.crash_leads s).moves fun q hq => hq ▸ .wrecks hevents
    | failed cause =>
      have hne : b.events ≠ [] := by simp [hevents]
      simp only [applied]
      split_ifs with hsaved
      · have hleads : Leads identity s (· = .stuck b b.committed)
          (c.at_ (.failing (.applying b b.committed) cause.asApply), s) :=
            ⟨rfl, hne, rfl, .refl _ _⟩
        exact hleads.moves (c := c) fun q hq => hq ▸ .fails hevents hsaved
      · have hleads : Leads identity s (· = .busy b) (c.at_ (.saving b cause.asApply), s) :=
          ⟨rfl, ⟨hne, not_le.mp hsaved⟩, rfl, .refl _ _⟩
        exact hleads.moves (c := c) fun q hq => hq ▸ .defers hevents (not_le.mp hsaved)

/-- A consumer that is over stays as it is. -/
theorem moves_of_isOver {c : Consumer} (hover : c.isOver = true) :
    Moves c s (c.deed p s now) (c.step p s now).1 (c.step p s now).2.2 := by
  obtain ⟨identity, stage, seenMark, seenControl, position⟩ := c
  cases stage with
  | ended =>
    let c : Consumer := ⟨identity, .ended, seenMark, seenControl, position⟩
    have hleads : Leads identity s (· = .free position) (c, s) := ⟨rfl, trivial, rfl, .refl _ _⟩
    exact hleads.moves (c := c) fun q hq => hq ▸ .rounds .rests
  | crashed =>
    let c : Consumer := ⟨identity, .crashed, seenMark, seenControl, position⟩
    have hleads : Leads identity s (· = .lost) (c, s) := ⟨rfl, trivial, rfl, .refl _ _⟩
    exact hleads.moves (c := c) fun q hq => hq ▸ .crashes
  | _ => cases hover

end

/-- Every step of a consumer is one beat. -/
theorem step_moves {c : Consumer} (hc : c.Coherent) (hk : Kept s.commons.log) :
    Moves c s (c.deed p s now) (c.step p s now).1 (c.step p s now).2.2 := by
  obtain ⟨identity, stage, seenMark, seenControl, position⟩ := c
  cases stage with
  | opening => exact moves_opening p s now
  | pausing elapsed due => exact moves_pausing p s now
  | loading =>
    obtain rfl : position = none := hc
    exact moves_loading p s now
  | idle => exact moves_idle p s now
  | fetching committed mark =>
    obtain rfl : position = some committed := hc
    exact moves_fetching p s now hk
  | applying b due => exact moves_applying p s now
  | saving b cause => exact moves_saving p s now hc
  | closing b => exact moves_closing p s now hc
  | failing i e => exact moves_failing p s now hc
  | reporting i report => exact moves_reporting p s now hc
  | backingOff i due => exact moves_backingOff p s now
  | ended => exact moves_of_isOver p s now rfl
  | crashed => exact moves_of_isOver p s now rfl

end Consumer

end Tidemark
