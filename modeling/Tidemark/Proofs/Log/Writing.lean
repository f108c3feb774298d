import Tidemark.Proofs.Log.Memory

/-!
# What writers do to the event log in memory

Writers reserve positions, commit events at positions that are still open, and give positions up.
Whatever they do, no committed position is lost, the mark on record stays, and a log that is
`Sound` stays sound.
-/

namespace Tidemark.MemoryLog

/-- A position was assigned and nothing is committed at it. -/
structure Open (log : MemoryLog) (p : Position) : Prop where
  assigned : 1 ≤ p ∧ p ≤ log.highest
  uncommitted : p ∉ log.committed

/-- What a writer does to a log in one call. -/
inductive Wrote (log : MemoryLog) : MemoryLog → Prop where
  /-- A position is reserved. -/
  | reserved {p : Position} {log' : MemoryLog} (h : log.reserve = .ok (p, log')) : Wrote log log'
  /-- An event is committed at a position reserved with it. -/
  | appended {p : Position} {log' : MemoryLog} (e : Entry) (h : log.append e = .ok (p, log')) :
    Wrote log log'
  /-- An event is committed at an open position. -/
  | committed {p : Position} (e : Entry) (h : log.Open p) : Wrote log (log.commit p e)
  /-- A position is given up, unless something is committed there. -/
  | settled {p : Position} (now : Timestamp) (h : 1 ≤ p ∧ p ≤ log.highest) :
    Wrote log (log.settle p now)

/-- The mark on record is zero or a committed position, and every committed position has been
assigned. -/
structure Sound (log : MemoryLog) : Prop where
  ascending : Ascending log.events
  assigned : ∀ p ∈ log.committed, 1 ≤ p ∧ p ≤ log.highest
  mark : log.mark = 0 ∨ log.mark ∈ log.committed
  counted : 0 ≤ log.highest

/-- An empty log is sound. -/
theorem sound_empty : Sound {} := ⟨.nil, by simp [MemoryLog.committed], .inl rfl, le_refl _⟩

/-- A sound log stays sound while its contents stay. -/
theorem Sound.of_sameContents {log log' : MemoryLog} (h : log.Sound) (hs : SameContents log log') :
    log'.Sound := by
  refine ⟨?_, ?_, ?_, ?_⟩
  · rw [hs.events]; exact h.ascending
  · rw [hs.committed, hs.highest]; exact h.assigned
  · rw [hs.mark, hs.committed]; exact h.mark
  · rw [hs.highest]; exact h.counted

/-- A position that is reserved is the one after the highest. -/
theorem reserve_eq_ok {log log' : MemoryLog} {p : Position} (h : log.reserve = .ok (p, log')) :
    p = log.highest + 1 ∧ log' = { log with highest := p } := by
  simp only [reserve, Position.next] at h
  split_ifs at h <;> cases h
  exact ⟨rfl, rfl⟩

/-- What a writer has done to a log: its events stay or one more is stored, at a position that was
assigned by now, and nothing else changes. -/
structure Grown (log log' : MemoryLog) : Prop where
  highest : log.highest ≤ log'.highest
  events : log'.events = log.events ∨
    ∃ p e, (1 ≤ p ∧ p ≤ log'.highest) ∧ p ∉ log.committed ∧ log'.events = put p e log.events
  progress : log'.progress = log.progress

/-- A writer makes a sound log grow. -/
theorem Wrote.grown {log log' : MemoryLog} (h : Wrote log log') (hsound : log.Sound) :
    Grown log log' := by
  cases h with
  | reserved h =>
    obtain ⟨rfl, rfl⟩ := reserve_eq_ok h
    exact ⟨by dsimp only; lia, .inl rfl, rfl⟩
  | @appended p _ e h =>
    obtain ⟨⟨q, reserved⟩, hr, h⟩ := bind_eq_ok.mp h
    obtain ⟨rfl, rfl⟩ := reserve_eq_ok hr
    obtain ⟨rfl, rfl⟩ := Prod.mk.inj (Except.ok.inj h)
    -- Nothing is stored above the highest position assigned.
    have hnew : log.highest + 1 ∉ log.committed := fun hmem => by
      have := hsound.assigned _ hmem
      lia
    have := hsound.counted
    exact ⟨by dsimp only; lia, .inr ⟨_, e, ⟨by lia, le_refl _⟩, hnew, rfl⟩, rfl⟩
  | @committed p e h =>
    exact ⟨le_max_left _ _, .inr ⟨p, e, ⟨h.assigned.1, le_max_right _ _⟩, h.uncommitted, rfl⟩, rfl⟩
  | @settled p now h =>
    unfold settle
    split_ifs with hcommitted
    · exact ⟨le_refl _, .inl rfl, rfl⟩
    · rw [isCommitted_iff] at hcommitted
      exact ⟨le_refl _, .inr ⟨p, _, h, hcommitted, rfl⟩, rfl⟩

/-- No committed position is lost as a log grows. -/
theorem Grown.subset {log log' : MemoryLog} (h : Grown log log') :
    ∀ q ∈ log.committed, q ∈ log'.committed := by
  intro q hq
  rcases h.events with heq | ⟨p, e, -, -, heq⟩
  · rwa [committed, heq]
  · rw [committed, heq, mem_fst_put]
    exact .inr hq

/-- The mark on record stays as a log grows. -/
theorem Grown.mark {log log' : MemoryLog} (h : Grown log log') : log'.mark = log.mark := by
  unfold MemoryLog.mark
  rw [h.progress]

/-- A sound log stays sound as it grows. -/
theorem Sound.of_grown {log log' : MemoryLog} (hsound : log.Sound) (h : Grown log log') :
    log'.Sound := by
  refine ⟨?_, fun q hq => ?_, ?_, le_trans hsound.counted h.highest⟩
  · rcases h.events with heq | ⟨p, e, -, -, heq⟩
    · rw [heq]; exact hsound.ascending
    · rw [heq]; exact put_ascending hsound.ascending
  · rcases h.events with heq | ⟨p, e, hp, -, heq⟩
    · rw [committed, heq] at hq
      have := hsound.assigned q hq
      exact ⟨this.1, le_trans this.2 h.highest⟩
    · rw [committed, heq, mem_fst_put] at hq
      rcases hq with rfl | hq
      · exact hp
      · have := hsound.assigned q hq
        exact ⟨this.1, le_trans this.2 h.highest⟩
  · rw [h.mark]
    exact hsound.mark.imp id (h.subset _)

end Tidemark.MemoryLog
