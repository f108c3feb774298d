import Tidemark.Proofs.Retry.Closing
import Tidemark.Proofs.Retry.Turns

/-!
# A retry block conserves its items

The books on a yard in which a new block is put to use are in order after all moves
(`Yard.Kept.play`). When the block is drained and every post has its answer, nobody holds an item
any more, so the tally of the block accounts for the items that were accepted (`Yard.conserves`).
-/

namespace Tidemark.Retry

variable {ι κ ω : Type}

/-- A new block is open and empty, and has at least one attempt for an item and at least one slot. -/
theorem Block.new_eq {name : String} {config : Config.Retrying} {b : Block ι κ}
    (h : Block.new name config = .ok b) :
    ∃ schedule, config.schedule = .ok schedule ∧ b =
      { name := name, schedule := schedule, maximumAttempts := max config.maximumAttempts 1,
        capacity := max config.queueCapacity 1,
        slots := { limit := max config.maxConcurrency 1 } } := by
  unfold Block.new at h
  rcases hschedule : config.schedule with cause | schedule
  · rw [hschedule] at h
    cases h
  · rcases hslots : (Bulkhead.new config.maxConcurrency : Except Crash (Bulkhead ℕ)) with
      cause | slots
    · simp only [hschedule, hslots, bind, Except.bind] at h
      split_ifs at h
    · simp only [hschedule, hslots, bind, Except.bind] at h
      split_ifs at h
      obtain rfl : slots = { limit := max config.maxConcurrency 1 } := by
        unfold Bulkhead.new at hslots
        split_ifs at hslots
        exact (Except.ok.inj hslots).symm
      cases h
      exact ⟨schedule, rfl, rfl⟩

/-- The dispatcher of a drained block has ended. -/
theorem Block.dispatcher_of_isDrained {b : Block ι κ} (hdrained : b.isDrained = true) :
    b.dispatcher = .done := by
  unfold Block.isDrained at hdrained
  split at hdrained
  next hdispatcher => exact hdispatcher
  next => cases hdrained

namespace Yard

/-- A yard in which nothing has happened. -/
def new (b : Block (ℕ × ι) (ℕ × κ)) (world : ω) : Yard ι κ ω := { block := b, world := (world, {}) }

/-- The items whose posts were answered with success. -/
def accepted (y : Yard ι κ ω) : List ℕ :=
  (List.range y.posts.length).filter fun i => y.posts[i]?.bind Posting.answer? = some (.ok ())

/-- Every post has its answer. -/
def Answered (y : Yard ι κ ω) : Prop := ∀ p ∈ y.posts, p.answer?.isSome = true

instance (y : Yard ι κ ω) : Decidable y.Answered :=
  inferInstanceAs (Decidable (∀ p ∈ y.posts, p.answer?.isSome = true))

/-- The yard is wired, and the books on it are in order. -/
structure Kept (limit : ℕ) (y : Yard ι κ ω) : Prop where
  wired : y.Wired
  attempts : y.block.maximumAttempts = limit
  books : ∃ fates, (y.books fates).Correct limit

variable {h : Handler ι κ ω} {y : Yard ι κ ω} {limit : ℕ}

/-! ## Runs -/

/-- The books on a new block are in order. -/
theorem Kept.new {name : String} {config : Config.Retrying} {b : Block (ℕ × ι) (ℕ × κ)}
    (hb : Block.new name config = .ok b) (world : ω) :
    (new b world).Kept (max config.maximumAttempts 1) := by
  obtain ⟨schedule, -, rfl⟩ := Block.new_eq hb
  refine ⟨⟨⟨List.nodup_nil, nofun, nofun, nofun, nofun, nofun⟩, nofun, nofun, nofun⟩, rfl, [], ?_⟩
  exact ⟨⟨List.Perm.refl _, nofun, nofun, fun i _ => rfl⟩, ⟨rfl, rfl, rfl, rfl, fun _ => rfl⟩⟩

/-- A move keeps the books in order. -/
theorem Kept.move (hy : y.Kept limit) (hlimit : 0 < limit) (hsafe : NeverCrashes h) (m : Move ι) :
    (y.move h m).Kept limit := by
  obtain ⟨fates, hbooks⟩ := hy.books
  obtain ⟨fates', hsteps⟩ := hy.wired.enters_move hsafe m fates
  rw [hy.attempts] at hsteps
  exact ⟨hy.wired.move m, (y.move_switches h m).1.trans hy.attempts, fates',
    hbooks.steps hlimit hsteps⟩

/-- Any number of moves keeps the books in order. -/
theorem Kept.play (hy : y.Kept limit) (hlimit : 0 < limit) (hsafe : NeverCrashes h)
    (ms : List (Move ι)) : (y.play h ms).Kept limit :=
  List.foldlRecOn ms (Yard.move h) hy fun _ hy m _ => hy.move hlimit hsafe m

/-- The block is stopped only by a move that is meant to stop it. -/
theorem stopping_play {ms : List (Move ι)} (hms : ∀ m ∈ ms, m.stops = false) :
    (y.play h ms).block.stopping = y.block.stopping :=
  List.foldlRecOn ms (Yard.move h) (motive := fun z => z.block.stopping = y.block.stopping) rfl
    fun z hz m hm => ((z.move_switches h m).2.2 (hms m hm)).trans hz

/-- A post that comes late stays so. -/
theorem Late.play {i : ℕ} (hy : y.Late i) (ms : List (Move ι)) : (y.play h ms).Late i :=
  List.foldlRecOn ms (Yard.move h) (motive := fun z => z.Late i) hy fun _ hz m _ => hz.move m

/-- A post that has not begun when the block is closed comes late. -/
theorem Kept.late (hy : y.Kept limit) (hclosed : y.block.isOpen = false) {i : ℕ}
    (hi : y.posts.length ≤ i) : y.Late i where
  closed := hclosed
  outside := fun hmem => absurd (hy.wired.holders i hmem) (not_lt.mpr hi)
  turned := fun p hp => by
    rw [List.getElem?_eq_none hi] at hp
    cases hp

/-! ## The balance -/

/-- Nobody holds an item once the block is drained and every post has its answer. -/
theorem Kept.held_eq_nil (hy : y.Kept limit) (hdrained : y.block.isDrained = true)
    (hanswered : y.Answered) : y.held = [] := by
  have hdone := Block.dispatcher_of_isDrained hdrained
  have hposts : y.posts.flatMap Posting.held = [] := by
    refine List.flatMap_eq_nil_iff.mpr fun p hp => ?_
    have hanswer := hanswered p hp
    cases p with
    | done outcome => rfl
    | trying | calling | sending | waiting => cases hanswer
  unfold held Block.held
  rw [hposts, (hy.wired.block.closed (.inr hdone)).1, hdone, hy.wired.block.gone hdone]
  rfl

/-- The items that were accepted according to the books are those whose posts were answered with
success. -/
theorem accepted_books (y : Yard ι κ ω) (fates : List (ℕ × Fate)) :
    (y.books fates).accepted = y.accepted := by
  unfold Books.accepted accepted books
  rw [List.length_map]
  refine List.filter_congr fun i _ => ?_
  rw [List.getElem?_map]
  cases y.posts[i]? with
  | none => simp
  | some p => simp

/-- A retry block conserves its items, whatever the moves were. Once it is drained, which is what
those wait for who drain it or shut it down, and every post has its answer, the items that were
accepted are as many as its tally counts in all: as completed those for which a call succeeded, as
exhausted those for which all attempts failed, and as abandoned the others. At all times it counts
every call that failed, no item has more calls than there are attempts, and nothing is given up
unless someone stops the block. A post that begins after the block was closed is turned away with
its next step, and never ends otherwise. -/
theorem conserves {name : String} {config : Config.Retrying} {b : Block (ℕ × ι) (ℕ × κ)}
    (hb : Block.new name config = .ok b) (hsafe : NeverCrashes h) (world : ω) (ms : List (Move ι)) :
    let y := (new b world).play h ms
    let tally := y.block.tally
    let calls := y.world.2
    let limit := max config.maximumAttempts 1
    (y.block.isDrained = true → y.Answered →
      y.accepted.length = tally.completed + tally.exhausted + tally.abandoned ∧
        tally.completed = y.accepted.countP (· ∈ calls.succeeded) ∧
          tally.exhausted = y.accepted.countP
            (fun i => i ∉ calls.succeeded ∧ calls.failed.count i = limit) ∧
            tally.abandoned = y.accepted.countP
              (fun i => i ∉ calls.succeeded ∧ calls.failed.count i < limit)) ∧
      tally.failedAttempts = calls.failed.length ∧
        (∀ i, calls.begun.count i ≤ limit) ∧
          ((∀ m ∈ ms, m.stops = false) → tally.abandoned = 0) ∧
            ∀ before after, ms = before ++ after →
              ((new b world).play h before).block.isOpen = false →
                ∀ i, ((new b world).play h before).posts.length ≤ i → i < y.posts.length →
                  (∀ outcome, y.posts[i]? = some (.done outcome) →
                    outcome = .error (.error .shutdown)) ∧
                    ∀ now, (y.move h (.poster i now)).posts[i]? =
                      some (.done (.error (.error .shutdown))) := by
  intro y tally calls limit
  have hlimit : 0 < limit := lt_of_lt_of_le Nat.one_pos (le_max_right _ _)
  have hy : y.Kept limit := (Kept.new hb world).play hlimit hsafe ms
  obtain ⟨fates, hbooks⟩ := hy.books
  refine ⟨fun hdrained hanswered => ?_, hbooks.tallied.failedAttempts, hbooks.placed.begun_le,
    fun hms => ?_, ?_⟩
  -- Nobody holds an item, so every item that was accepted is among the fates that are counted.
  · have hbalance := hbooks.balance (hy.held_eq_nil hdrained hanswered)
    rwa [y.accepted_books fates] at hbalance
  · obtain ⟨schedule, -, rfl⟩ := Block.new_eq hb
    exact hbooks.tallied.kept (stopping_play hms)
  -- A post without a place in the list comes late, and stays late once it has one.
  · rintro before after rfl hclosed i hi hlength
    have hbefore := (Kept.new hb world).play hlimit hsafe before
    have hlate : y.Late i := by
      have hplay : y = ((new b world).play h before).play h after := List.foldl_append
      rw [hplay]
      exact (hbefore.late hclosed hi).play after
    exact ⟨fun outcome hdone => hlate.turned _ hdone, fun now => hlate.refused hlength now⟩

/-- A handler whose calls succeed for the items that say so. -/
def asTold : Handler Bool Bool Unit where
  start x now world := ((x, now), world)
  finish call _ world := (if call then .ok () else .error (.error .shutdown), world)

/-- Moves by which one item is completed. Another one fails when it is posted, is put into the queue
after the block was stopped, and is given up. A third one comes too late. -/
def stopped : List (Move Bool) :=
  [.post true, .poster 0 0, .postAsync false, .poster 1 0, .poster 1 1, .holds 1, .dispatcher,
    .dispatcher, .worker 0 2, .worker 0 3, .shutdown, .poster 1 4, .post true, .poster 2 4,
    .dispatcher, .dispatcher, .worker 1 5, .dispatcher, .dispatcher]

/-- The moves after which the block is stopped and drained leave the tally with the two items that
were accepted. -/
theorem conserves_stopped :
    ∃ b : Block (ℕ × Bool) (ℕ × Bool),
      Block.new "orders" { maximumAttempts := 2, backoff := [], queueCapacity := 1 } = .ok b ∧
        NeverCrashes asTold ∧
          ((new b ()).play asTold stopped).block.isDrained = true ∧
            ((new b ()).play asTold stopped).Answered ∧
              ((new b ()).play asTold stopped).accepted = [0, 1] ∧
                ((new b ()).play asTold stopped).block.tally.completed = 1 ∧
                  ((new b ()).play asTold stopped).accepted.length =
                    ((new b ()).play asTold stopped).block.tally.completed +
                      ((new b ()).play asTold stopped).block.tally.exhausted +
                        ((new b ()).play asTold stopped).block.tally.abandoned := by
  have hsafe : NeverCrashes asTold := by
    intro call now world cause
    cases call
    · nofun
    · nofun
  have hconserves (b : Block (ℕ × Bool) (ℕ × Bool)) (hb : Block.new "orders"
      { maximumAttempts := 2, backoff := [], queueCapacity := 1 } = .ok b) :=
    (conserves hb hsafe () stopped).1
  exact ⟨_, rfl, hsafe, by decide +kernel, by decide +kernel, by decide +kernel, by decide +kernel,
    (hconserves _ rfl (by decide +kernel) (by decide +kernel)).1⟩

end Yard

end Tidemark.Retry
