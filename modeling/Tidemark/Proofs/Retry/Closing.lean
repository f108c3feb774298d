import Tidemark.Proofs.Retry.Wiring

/-!
# A closed block stays closed

A move neither changes how many attempts an item has nor opens a block that was closed, and it stops
the block only if it is meant to (`Yard.move_switches`). So whoever begins to post an item to a
closed block gets no further than the refusal (`Yard.Late.move`).
-/

namespace Tidemark.Retry

variable {ι κ ω : Type}

/-- The move is meant to stop the block. -/
def Move.stops : Move ι → Bool
  | .shutdown | .signals => true
  | _ => false

/-- A post that gets no further than the refusal. -/
def Posting.Turned : Posting ι κ → Prop
  | .trying _ | .sending _ => True
  | .done outcome => outcome = .error (.error .shutdown)
  | _ => False

/-- A closed block turns a post away with its next step. -/
theorem Posting.Turned.step {p : Posting ι κ} (hp : p.Turned) (h : Handler ι κ ω) {b : Block ι κ}
    (hclosed : b.isOpen = false) (m : Metrics) (now : Moment) (world : ω) :
    (p.step h b m now world).1 = .done (.error (.error .shutdown)) := by
  cases p with
  | trying x => simp [Posting.step, hclosed]
  | calling => exact hp.elim
  | sending item => simp [Posting.step, send, hclosed]
  | waiting => exact hp.elim
  | done outcome => exact congrArg Posting.done hp

namespace Yard

variable {h : Handler ι κ ω} {y : Yard ι κ ω} {i : ℕ}

/-- A move neither changes how many attempts an item has nor opens the block, and only a move that
is meant to stop it does. -/
theorem move_switches (h : Handler ι κ ω) (y : Yard ι κ ω) (m : Move ι) :
    (y.move h m).block.maximumAttempts = y.block.maximumAttempts ∧
      (y.block.isOpen = false → (y.move h m).block.isOpen = false) ∧
        (m.stops = false → (y.move h m).block.stopping = y.block.stopping) := by
  have hkept {b : Block (ℕ × ι) (ℕ × κ)} (hb : y.block.Unswitched b) :
      b.maximumAttempts = y.block.maximumAttempts ∧ (y.block.isOpen = false → b.isOpen = false) ∧
        (m.stops = false → b.stopping = y.block.stopping) :=
    ⟨hb.limit, fun hclosed => hb.isOpen.trans hclosed, fun _ => hb.stopping⟩
  cases m with
  | post | postAsync => exact hkept ⟨rfl, rfl, rfl⟩
  | poster i now =>
    refine hkept ?_
    show y.block.Unswitched (y.stepPoster h i now).block
    rcases y.stepPoster_cases h i now with hstep | ⟨p, -, -, hstep⟩ | ⟨item, -, -, hstep⟩
    · rw [hstep]
      exact ⟨rfl, rfl, rfl⟩
    · rw [hstep]
      exact (p.step_turn h y.block y.metrics now y.world).spares.1.toUnswitched
    · have hspares := Posting.send_spares { y.block with isOpen := true } item
      rw [hstep]
      exact ⟨hspares.limit, rfl, hspares.stopping⟩
  | holds i =>
    refine hkept ?_
    show y.block.Unswitched (y.hold i).block
    rcases y.hold_cases i with hstep | ⟨hstep, -⟩
    · rw [hstep]
      exact ⟨rfl, rfl, rfl⟩
    · rw [hstep]
      exact ⟨rfl, rfl, rfl⟩
  | dispatcher =>
    refine hkept ?_
    show y.block.Unswitched y.stepDispatcher.block
    rcases y.stepDispatcher_cases with hstep | ⟨hstep, -⟩
    · rw [hstep]
      exact ⟨rfl, rfl, rfl⟩
    · rw [hstep]
      exact y.block.stepDispatcher_spares.1
  | worker k now =>
    refine hkept ?_
    show y.block.Unswitched (y.block.stepWorker (audited h) y.metrics k now y.world).1
    rcases Block.stepWorker_cases h y.block y.metrics k now y.world with
      hstep | ⟨tally, ⟨v, -, hstep⟩ | hstep⟩
    · rw [hstep]
      exact ⟨rfl, rfl, rfl⟩
    · rw [hstep]
      exact ⟨rfl, rfl, rfl⟩
    · rw [hstep]
      exact ⟨rfl, rfl, rfl⟩
  | overruns k now =>
    refine hkept ?_
    show y.block.Unswitched (y.overrun h k now).block
    rcases y.overrun_cases h k now with hstep | ⟨v, world, -, hstep⟩
    · rw [hstep]
      exact ⟨rfl, rfl, rfl⟩
    · rw [hstep]
      exact ⟨rfl, rfl, rfl⟩
  | drain => exact ⟨rfl, fun _ => rfl, fun _ => rfl⟩
  | shutdown => exact ⟨rfl, fun _ => rfl, nofun⟩
  | signals => exact ⟨rfl, id, nofun⟩

/-! ## Posts that come late -/

/-- The block is closed, and a post with that number, if there is one, does not hold the queue and
gets no further than the refusal. -/
structure Late (y : Yard ι κ ω) (i : ℕ) : Prop where
  closed : y.block.isOpen = false
  outside : i ∉ y.holding
  turned : ∀ p, y.posts[i]? = some p → Posting.Turned p

/-- A post that comes late is turned away with its next step. -/
theorem Late.refused (hy : y.Late i) (hi : i < y.posts.length) (now : Moment) :
    (y.stepPoster h i now).posts[i]? = some (.done (.error (.error .shutdown))) := by
  obtain ⟨p, hp⟩ : ∃ p, y.posts[i]? = some p := ⟨_, List.getElem?_eq_getElem hi⟩
  unfold stepPoster
  rw [if_neg hy.outside, hp]
  have hstep := (hy.turned p hp).step (audited h) hy.closed y.metrics now y.world
  show (y.posts.set i (p.step (audited h) y.block y.metrics now y.world).1)[i]? = _
  rw [hstep]
  exact List.getElem?_set_self hi

/-- A step of a post leaves the others as they are, and none takes hold of the queue by it. -/
theorem stepPoster_frame (h : Handler ι κ ω) (y : Yard ι κ ω) (j : ℕ) (now : Moment) :
    (∀ i, i ≠ j → (y.stepPoster h j now).posts[i]? = y.posts[i]?) ∧
      (y.stepPoster h j now).posts.length = y.posts.length ∧
        (y.stepPoster h j now).holding ⊆ y.holding := by
  rcases y.stepPoster_cases h j now with hstep | ⟨p, -, -, hstep⟩ | ⟨item, -, -, hstep⟩
  · rw [hstep]
    exact ⟨fun _ _ => rfl, rfl, List.Subset.refl _⟩
  · rw [hstep]
    exact ⟨fun i hi => List.getElem?_set_ne hi.symm, List.length_set, List.Subset.refl _⟩
  · rw [hstep]
    exact ⟨fun i hi => List.getElem?_set_ne hi.symm, List.length_set, List.filter_subset_self _⟩

/-- A post that comes late stays so. -/
theorem Late.move (hy : y.Late i) (m : Move ι) : (y.move h m).Late i := by
  have hclosed := (y.move_switches h m).2.1 hy.closed
  have happend {p q : Posting (ℕ × ι) (ℕ × κ)} (hp : p.Turned)
      (hq : (y.posts ++ [p])[i]? = some q) : q.Turned := by
    by_cases hi : i < y.posts.length
    · rw [List.getElem?_append_left hi] at hq
      exact hy.turned q hq
    · rw [List.getElem?_append_right (not_lt.mp hi)] at hq
      obtain rfl := List.mem_singleton.mp (List.mem_of_getElem? hq)
      exact hp
  cases m with
  | post item => exact ⟨hclosed, hy.outside, fun q hq => happend (p := .post _) trivial hq⟩
  | postAsync item => exact ⟨hclosed, hy.outside, fun q hq => happend (p := .trying _) trivial hq⟩
  | poster j now =>
    -- The turn of another post does not matter, and the post's own one ends with the refusal.
    obtain ⟨hothers, hlength, hholding⟩ := y.stepPoster_frame h j now
    refine ⟨hclosed, fun hmem => hy.outside (hholding hmem), fun q hq => ?_⟩
    have hq : (y.stepPoster h j now).posts[i]? = some q := hq
    by_cases hij : i = j
    · subst hij
      have hi : i < y.posts.length := hlength ▸ (List.getElem?_eq_some_iff.mp hq).1
      rw [hy.refused hi now, Option.some.injEq] at hq
      exact hq ▸ rfl
    · rw [hothers i hij] at hq
      exact hy.turned q hq
  | holds j =>
    -- Nobody can take hold of the queue of a closed block.
    show (y.hold j).Late i
    rcases y.hold_cases j with hstep | ⟨hstep, hopen, -⟩
    · rw [hstep]
      exact hy
    · rw [hy.closed] at hopen
      cases hopen
  | dispatcher =>
    have hclosed : y.stepDispatcher.block.isOpen = false := hclosed
    show y.stepDispatcher.Late i
    rcases y.stepDispatcher_cases with hstep | ⟨hstep, -⟩
    · rw [hstep]
      exact hy
    · rw [hstep] at hclosed ⊢
      exact ⟨hclosed, hy.outside, hy.turned⟩
  | worker k now => exact ⟨hclosed, hy.outside, hy.turned⟩
  | overruns k now =>
    show (y.overrun h k now).Late i
    rcases y.overrun_cases h k now with hstep | ⟨v, world, -, hstep⟩
    · rw [hstep]
      exact hy
    · rw [hstep]
      exact ⟨hy.closed, hy.outside, hy.turned⟩
  | drain | shutdown | signals => exact ⟨hclosed, hy.outside, hy.turned⟩

end Yard

end Tidemark.Retry
