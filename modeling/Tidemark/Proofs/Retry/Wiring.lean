import Tidemark.Proofs.Retry.Tasks

/-!
# Whatever happens in a yard, it stays wired

Those who post items leave the tasks of the block alone (`Block.Spares`), the dispatcher numbers its
workers anew, and a worker goes on with its own item. So every move keeps a yard wired
(`Yard.Wired.move`).
-/

namespace Tidemark.Retry

variable {ι κ ω : Type}

/-! ## Posts -/

/-- What only those change in a block who drain it or shut it down. -/
structure Block.Unswitched (b b' : Block ι κ) : Prop where
  limit : b'.maximumAttempts = b.maximumAttempts
  isOpen : b'.isOpen = b.isOpen
  stopping : b'.stopping = b.stopping

/-- What a post does not touch in a block. -/
structure Block.Spares (b b' : Block ι κ) : Prop extends b.Unswitched b' where
  dispatcher : b'.dispatcher = b.dispatcher
  workers : b'.workers = b.workers
  nextWorker : b'.nextWorker = b.nextWorker

/-- Nothing is touched. -/
theorem Block.Spares.refl (b : Block ι κ) : b.Spares b := ⟨⟨rfl, rfl, rfl⟩, rfl, rfl, rfl⟩

/-- Only something is counted. -/
theorem Block.Spares.counting (b : Block ι κ) (tally : Tally) :
    b.Spares { b with tally := tally } :=
  ⟨⟨rfl, rfl, rfl⟩, rfl, rfl, rfl⟩

/-- A sealed queue is closed. -/
theorem Block.isOpen_of_isSealed (b : Block ι κ) (hsealed : b.isSealed = true) :
    b.isOpen = false := by
  simp only [Block.isSealed, Bool.and_eq_true, Bool.not_eq_true'] at hsealed
  exact hsealed.1.1

/-- A post that sends its item leaves everything alone but the queue and its line. -/
theorem Posting.send_spares (b : Block ι κ) (item : Item ι) : b.Spares (send b item).2 := by
  rcases send_cases b item with ⟨hsend, -⟩ | ⟨hsend, -⟩ | ⟨hsend, -⟩
  · rw [hsend]
    exact .refl b
  · rw [hsend]
    exact ⟨⟨rfl, rfl, rfl⟩, rfl, rfl, rfl⟩
  · rw [hsend]
    exact ⟨⟨rfl, rfl, rfl⟩, rfl, rfl, rfl⟩

/-- A post that sends its item keeps it. -/
theorem Posting.send_of {i : ℕ} {item : Item (ℕ × ι)} (hitem : item.item.1 = i)
    (b : Block (ℕ × ι) (ℕ × κ)) : (send b item).1.Of i := by
  rcases send_cases b item with ⟨hsend, -⟩ | ⟨hsend, -⟩ | ⟨hsend, -⟩
  · rw [hsend]
    trivial
  · rw [hsend]
    trivial
  · rw [hsend]
    exact hitem

/-- The turn of a post puts nothing into a sealed queue, and leaves everything else alone. -/
theorem Posting.Turn.spares {h : Handler ι κ ω} {b b' : Block (ℕ × ι) (ℕ × κ)} {now : Moment}
    {world world' : ω × Record} {p q : Posting (ℕ × ι) (ℕ × κ)}
    (hp : p.Turn h b now world b' world' q) :
    b.Spares b' ∧ (b.isSealed = true → b'.queue = b.queue ∧ b'.isSealed = true) := by
  cases hp with
  | begins | turned | crashes | waits | ended => exact ⟨.refl b, fun hsealed => ⟨rfl, hsealed⟩⟩
  | succeeds | exhausts | fails => exact ⟨.counting b _, fun hsealed => ⟨rfl, hsealed⟩⟩
  | @sends item =>
    -- What is sealed is closed, so the item is refused.
    refine ⟨send_spares b item, fun hsealed => ?_⟩
    have hclosed : (!b.isOpen) = true := by
      rw [b.isOpen_of_isSealed hsealed]
      rfl
    simp only [send, if_pos hclosed]
    exact ⟨trivial, hsealed⟩
  | enters hgranted =>
    refine ⟨⟨⟨rfl, rfl, rfl⟩, rfl, rfl, rfl⟩, fun hsealed => ?_⟩
    -- No place in a sealed queue is kept for anyone.
    simp only [Block.isSealed, Bool.and_eq_true, List.isEmpty_iff] at hsealed
    rw [hsealed.2] at hgranted
    cases hgranted

/-- A post keeps its item. -/
theorem Posting.Turn.of {h : Handler ι κ ω} {b b' : Block (ℕ × ι) (ℕ × κ)} {now : Moment}
    {world world' : ω × Record} {p q : Posting (ℕ × ι) (ℕ × κ)} {i : ℕ}
    (hp : p.Turn h b now world b' world' q) (hof : p.Of i) : q.Of i := by
  cases hp with
  | begins => exact ⟨hof, hof⟩
  | fails => exact hof.1
  | sends => exact send_of hof b
  | waits => exact hof
  | turned | succeeds | crashes | exhausts | enters | ended => trivial

/-! ## Tasks -/

section Tasks

variable {b b' : Block (ℕ × ι) (ℕ × κ)}

/-- Whatever leaves the tasks of a block alone, and its queue once the dispatcher has seen the end
of it, keeps the block wired. -/
theorem Block.Wired.spares (hb : b.Wired) (h : b.Spares b')
    (hclosed : b.dispatcher = .joining ∨ b.dispatcher = .done →
      b'.queue = [] ∧ b'.isSealed = true) : b'.Wired where
  keys := by rw [h.workers]; exact hb.keys
  below := by rw [h.workers, h.nextWorker]; exact hb.below
  acquiring := by rw [h.workers, h.nextWorker, h.dispatcher]; exact hb.acquiring
  calls := by rw [h.workers]; exact hb.calls
  closed := by rw [h.dispatcher]; exact hclosed
  gone := by rw [h.workers, h.dispatcher]; exact hb.gone

/-- The dispatcher switches nothing, and sees the end of the queue only where it is empty. -/
theorem Block.stepDispatcher_spares (b : Block ι κ) :
    b.Unswitched b.stepDispatcher ∧
      (b.stepDispatcher.dispatcher = .joining ∨ b.stepDispatcher.dispatcher = .done →
        b.dispatcher = .receiving ∧ b.queue = [] ∨ b.dispatcher = .joining ∨
          b.dispatcher = .done) := by
  rcases b.stepDispatcher_cases with hstep | ⟨item, rest, line, granted, -, -, hstep⟩ |
    ⟨hdispatcher, hqueue, -, hstep⟩ | ⟨item, k, -, -, hstep⟩ | ⟨hdispatcher, -, hstep⟩
  · rw [hstep]
    exact ⟨⟨rfl, rfl, rfl⟩, .inr⟩
  · rw [hstep]
    exact ⟨⟨rfl, rfl, rfl⟩, nofun⟩
  · rw [hstep]
    exact ⟨⟨rfl, rfl, rfl⟩, fun _ => .inl ⟨hdispatcher, hqueue⟩⟩
  · rw [hstep]
    exact ⟨⟨rfl, rfl, rfl⟩, nofun⟩
  · rw [hstep]
    exact ⟨⟨rfl, rfl, rfl⟩, fun _ => .inr (.inl hdispatcher)⟩

/-- The dispatcher keeps a block wired. -/
theorem Block.Wired.stepDispatcher (hb : b.Wired) : b.stepDispatcher.Wired := by
  rcases b.stepDispatcher_cases with hstep | ⟨item, rest, line, granted, -, -, hstep⟩ |
    ⟨-, hqueue, hsealed, hstep⟩ | ⟨item, k, hdispatcher, -, hstep⟩ | ⟨hdispatcher, hempty, hstep⟩
  · rw [hstep]
    exact hb
  · rw [hstep]
    refine ⟨hb.keys, fun k hk => Nat.lt_succ_of_lt (hb.below k hk), fun _ k hk => ?_, hb.calls,
      nofun, nofun⟩
    -- The next worker has a number that no worker has had.
    cases hk
    exact ⟨Nat.lt_succ_self _, fun hmem => lt_irrefl _ (hb.below _ hmem)⟩
  · rw [hstep]
    exact ⟨hb.keys, hb.below, nofun, hb.calls, fun _ => ⟨hqueue, hsealed⟩, nofun⟩
  · -- The number was kept for the worker when the item was taken from the queue.
    obtain ⟨hk, hnew⟩ := hb.acquiring item k hdispatcher
    have hkeys : (b.workers ++ [(k, (.starting item : Worker (ℕ × ι) (ℕ × κ)))]).map Prod.fst =
        b.workers.map Prod.fst ++ [k] := by simp
    rw [hstep]
    refine ⟨?_, ?_, nofun, ?_, nofun, nofun⟩
    · rw [hkeys]
      exact List.nodup_append_comm.mp (List.nodup_cons.mpr ⟨hnew, hb.keys⟩)
    · rw [hkeys]
      intro j hj
      rcases List.mem_append.mp hj with hj | hj
      · exact hb.below j hj
      · exact List.mem_singleton.mp hj ▸ hk
    · intro w hw
      rcases List.mem_append.mp hw with hw | hw
      · exact hb.calls w hw
      · exact List.mem_singleton.mp hw ▸ trivial
  · rw [hstep]
    exact ⟨hb.keys, hb.below, nofun, hb.calls, fun _ => hb.closed (.inl hdispatcher),
      fun _ => hempty⟩

/-- Going on keeps the numbers of the workers. -/
theorem Block.keys_setWorker (b : Block ι κ) (k : ℕ) (v : Worker ι κ) :
    (b.setWorker k v).workers.map Prod.fst = b.workers.map Prod.fst := by
  unfold Block.setWorker
  rw [List.map_map]
  refine List.map_congr_left fun w _ => ?_
  simp only [Function.comp_apply]
  split_ifs <;> rfl

/-- A worker that goes on keeps a block wired. -/
theorem Block.Wired.setWorker (hb : b.Wired) (k : ℕ) {v : Worker (ℕ × ι) (ℕ × κ)} (hv : v.Wired)
    (tally : Tally) : ({ b with tally := tally }.setWorker k v).Wired := by
  have hkeys : (({ b with tally := tally }.setWorker k v).workers.map Prod.fst) =
      b.workers.map Prod.fst := Block.keys_setWorker _ k v
  refine ⟨?_, ?_, ?_, ?_, hb.closed, ?_⟩
  · rw [hkeys]
    exact hb.keys
  · rw [hkeys]
    exact hb.below
  · rw [hkeys]
    exact hb.acquiring
  · intro w hw
    obtain ⟨⟨j, u⟩, hu, rfl⟩ := List.mem_map.mp hw
    dsimp only
    split_ifs
    · exact hv
    · exact hb.calls (j, u) hu
  · intro hdone
    exact List.map_eq_nil_iff.mpr (hb.gone hdone)

/-- A worker that ends keeps a block wired. -/
theorem Block.Wired.endWorker (hb : b.Wired) (k : ℕ) (tally : Tally) :
    ({ b with tally := tally }.endWorker k).Wired := by
  have hsub : ({ b with tally := tally }.endWorker k).workers.Sublist b.workers :=
    List.filter_sublist
  have hkeys : (({ b with tally := tally }.endWorker k).workers.map Prod.fst).Sublist
      (b.workers.map Prod.fst) := hsub.map Prod.fst
  exact {
    keys := hb.keys.sublist hkeys
    below := fun j hj => hb.below j (hkeys.subset hj)
    acquiring := fun item j hj => (hb.acquiring item j hj).imp id fun hnew hmem =>
      hnew (hkeys.subset hmem)
    calls := fun w hw => hb.calls w (hsub.subset hw)
    closed := hb.closed
    gone := fun hdone => List.sublist_nil.mp (hb.gone hdone ▸ hsub) }

/-- A worker that begins an attempt does so for its item. -/
theorem Block.attempt_eq (h : Handler ι κ ω) (b : Block (ℕ × ι) (ℕ × κ)) (k : ℕ)
    (item : Item (ℕ × ι)) (now : Moment) (world : ω × Record) :
    ∃ v : Worker (ℕ × ι) (ℕ × κ), v.Wired ∧
      (b.attempt (audited h) k item now world).1 = b.setWorker k v := by
  obtain ⟨call, due, inner, hattempt⟩ := b.attempt_audited h k item now world
  exact ⟨.calling ⟨item.item, item.attempts + 1⟩ (item.item.1, call) due, rfl, by rw [hattempt]⟩

/-- A worker keeps its item, and calls for no other one. -/
theorem Worker.Turn.keeps {h : Handler ι κ ω} {now : Moment} {world world' : ω × Record}
    {w v : Worker (ℕ × ι) (ℕ × κ)} {tally : Tally}
    (hw : w.Turn h b now world tally world' (some v)) : v.Wired ∧ v.held.id = w.held.id := by
  cases hw with
  | begins | resumes => exact ⟨rfl, rfl⟩
  | rests | fails => exact ⟨trivial, rfl⟩

/-- A worker that takes a step goes on or ends, and something may be counted. -/
theorem Block.stepWorker_cases (h : Handler ι κ ω) (b : Block (ℕ × ι) (ℕ × κ)) (m : Metrics) (k : ℕ)
    (now : Moment) (world : ω × Record) :
    (b.stepWorker (audited h) m k now world).1 = b ∨
      ∃ tally, (∃ v : Worker (ℕ × ι) (ℕ × κ), v.Wired ∧
          (b.stepWorker (audited h) m k now world).1 = { b with tally := tally }.setWorker k v) ∨
        (b.stepWorker (audited h) m k now world).1 = { b with tally := tally }.endWorker k := by
  cases hk : b.worker? k with
  | none =>
    left
    unfold Block.stepWorker
    simp only [hk]
  | some w =>
    obtain ⟨tally, w', hturn, hstep⟩ := Block.stepWorker_turn h m hk now world
    rw [hstep]
    refine .inr ⟨tally, ?_⟩
    cases w' with
    | none => exact .inr rfl
    | some v => exact .inl ⟨v, hturn.keeps.1, rfl⟩

end Tasks

/-! ## Moves -/

namespace Yard

variable {h : Handler ι κ ω} {y : Yard ι κ ω}

/-- A worker that begins a further attempt after all goes on. -/
theorem overrun_cases (h : Handler ι κ ω) (y : Yard ι κ ω) (k : ℕ) (now : Moment) :
    y.overrun h k now = y ∨ ∃ (v : Worker (ℕ × ι) (ℕ × κ)) (world : ω × Record), v.Wired ∧
      y.overrun h k now = { y with block := y.block.setWorker k v, world := world } := by
  unfold overrun
  rcases y.block.worker? k with _ | (_ | ⟨item, due⟩ | _)
  case some.resting =>
    obtain ⟨v, hv, hattempt⟩ := y.block.attempt_eq h k item now y.world
    exact .inr ⟨v, _, hv, by rw [← hattempt]⟩
  all_goals exact .inl rfl

/-- The posts have their items after a step of one of them. -/
theorem Wired.posts_set (hy : y.Wired) {i : ℕ} {q : Posting (ℕ × ι) (ℕ × κ)} (hq : q.Of i) (j : ℕ)
    (p : Posting (ℕ × ι) (ℕ × κ)) (hp : (y.posts.set i q)[j]? = some p) : p.Of j := by
  by_cases hij : i = j
  · subst hij
    have hi : i < y.posts.length := by
      have hlt := (List.getElem?_eq_some_iff.mp hp).1
      rwa [List.length_set] at hlt
    rw [List.getElem?_set_self hi, Option.some.injEq] at hp
    exact hp ▸ hq
  · rw [List.getElem?_set_ne hij] at hp
    exact hy.posts j p hp

/-- A post that has its turn keeps a yard wired. -/
theorem Wired.stepPoster (hy : y.Wired) (i : ℕ) (now : Moment) : (y.stepPoster h i now).Wired := by
  rcases y.stepPoster_cases h i now with
    hstep | ⟨p, hp, hholding, hstep⟩ | ⟨item, hp, hholding, hstep⟩
  · rw [hstep]
    exact hy
  · have hturn := p.step_turn h y.block y.metrics now y.world
    obtain ⟨hspares, hsealed⟩ := hturn.spares
    rw [hstep]
    refine ⟨hy.block.spares hspares fun hend => ?_,
      hy.posts_set (hturn.of (hy.posts i p hp)), ?_, ?_⟩
    · obtain ⟨hqueue, hend⟩ := hy.block.closed hend
      exact (hsealed hend).imp (·.trans hqueue) id
    · intro j hj
      exact List.length_set.symm ▸ hy.holders j hj
    · intro hend
      exact hy.released (hspares.dispatcher ▸ hend)
  · have hspares := Posting.send_spares { y.block with isOpen := true } item
    -- A post holds the queue, so the dispatcher has not seen the end of it.
    have hgoing : ¬(y.block.dispatcher = .joining ∨ y.block.dispatcher = .done) := by
      intro hend
      rw [hy.released hend] at hholding
      cases hholding
    rw [hstep]
    refine ⟨hy.block.spares ⟨⟨hspares.limit, rfl, hspares.stopping⟩, hspares.dispatcher,
      hspares.workers, hspares.nextWorker⟩ (absurd · hgoing),
      hy.posts_set (Posting.send_of (hy.posts i _ hp) _), fun j hj => ?_, fun hend => ?_⟩
    · exact List.length_set.symm ▸ hy.holders j (List.mem_of_mem_filter hj)
    · exact absurd (hspares.dispatcher ▸ hend) hgoing

/-- Someone who begins to post an item has it. -/
theorem Wired.posts_append (hy : y.Wired) {p : Posting (ℕ × ι) (ℕ × κ)} (hp : p.Of y.posts.length) :
    Wired { y with posts := y.posts ++ [p] } := by
  have hlength : (y.posts ++ [p]).length = y.posts.length + 1 := by simp
  refine ⟨hy.block, fun j q hq => ?_, fun j hj => ?_, hy.released⟩
  · rcases lt_trichotomy j y.posts.length with hlt | rfl | hgt
    · rw [List.getElem?_append_left hlt] at hq
      exact hy.posts j q hq
    · rw [List.getElem?_concat_length, Option.some.injEq] at hq
      exact hq ▸ hp
    · have hlt := (List.getElem?_eq_some_iff.mp hq).1
      rw [hlength] at hlt
      omega
  · exact hlength ▸ Nat.lt_succ_of_lt (hy.holders j hj)

/-- Closing or stopping a block keeps it wired. -/
theorem Wired.switch (hy : y.Wired) {o : Bool} (ho : y.block.isOpen = false → o = false)
    (s : Bool) :
    Wired { y with block := { y.block with isOpen := o, stopping := s } } := by
  refine ⟨⟨hy.block.keys, hy.block.below, hy.block.acquiring, hy.block.calls, fun hend => ?_,
    hy.block.gone⟩, hy.posts, hy.holders, hy.released⟩
  obtain ⟨hqueue, hsealed⟩ := hy.block.closed hend
  refine ⟨hqueue, ?_⟩
  have hclosed := y.block.isOpen_of_isSealed hsealed
  unfold Block.isSealed at hsealed ⊢
  rw [hclosed] at hsealed
  rw [ho hclosed]
  exact hsealed

/-- A yard stays wired whose workers have done their work. -/
theorem Wired.workers (hy : y.Wired) {b : Block (ℕ × ι) (ℕ × κ)} (hb : b.Wired)
    (hdispatcher : b.dispatcher = y.block.dispatcher) (m : Metrics) (world : ω × Record) :
    Wired { y with block := b, metrics := m, world := world } :=
  ⟨hb, hy.posts, hy.holders, fun hend => hy.released (hdispatcher ▸ hend)⟩

/-- Every move keeps a yard wired. -/
theorem Wired.move (hy : y.Wired) (m : Move ι) : (y.move h m).Wired := by
  cases m with
  | post item => exact hy.posts_append rfl
  | postAsync item => exact hy.posts_append rfl
  | poster i now => exact hy.stepPoster i now
  | holds i =>
    -- An open block is not sealed, so the dispatcher has not seen the end of its queue.
    show (y.hold i).Wired
    rcases y.hold_cases i with hstep | ⟨hstep, hopen, hi⟩
    · rw [hstep]
      exact hy
    · rw [hstep]
      refine ⟨hy.block, hy.posts, List.forall_mem_cons.mpr ⟨hi, hy.holders⟩, fun hend => ?_⟩
      have hclosed := y.block.isOpen_of_isSealed (hy.block.closed hend).2
      rw [hopen] at hclosed
      cases hclosed
  | dispatcher =>
    -- It sees the end of the queue only where nobody holds the queue.
    show y.stepDispatcher.Wired
    rcases y.stepDispatcher_cases with hstep | ⟨hstep, hreleased⟩
    · rw [hstep]
      exact hy
    · rw [hstep]
      refine ⟨hy.block.stepDispatcher, hy.posts, hy.holders, fun hend => ?_⟩
      rcases y.block.stepDispatcher_spares.2 hend with ⟨hdispatcher, hqueue⟩ | hend
      · exact hreleased hdispatcher hqueue
      · exact hy.released hend
  | worker k now =>
    unfold Yard.move Yard.stepWorker
    dsimp only
    rcases Block.stepWorker_cases h y.block y.metrics k now y.world with
      hstep | ⟨tally, ⟨v, hv, hstep⟩ | hstep⟩
    · rw [hstep]
      exact hy.workers hy.block rfl _ _
    · rw [hstep]
      exact hy.workers (hy.block.setWorker k hv tally) rfl _ _
    · rw [hstep]
      exact hy.workers (hy.block.endWorker k tally) rfl _ _
  | overruns k now =>
    show (y.overrun h k now).Wired
    rcases y.overrun_cases h k now with hstep | ⟨v, world, hv, hstep⟩
    · rw [hstep]
      exact hy
    · rw [hstep]
      exact hy.workers (hy.block.setWorker k hv y.block.tally) rfl _ _
  | drain => exact hy.switch (fun _ => rfl) y.block.stopping
  | shutdown => exact hy.switch (fun _ => rfl) true
  | signals => exact hy.switch id true

end Yard

end Tidemark.Retry
