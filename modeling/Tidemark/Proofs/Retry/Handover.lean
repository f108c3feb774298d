import Tidemark.Proofs.Retry.Wiring

/-!
# Who hands over what in a retry block

Between two states of a block it shows what has happened to its items: one has got into the queue,
the slot for a worker was taken, so that its item is handed over, a worker has begun a call, or a
worker has come to its end. These `Event`s are noted along the moves in a yard (`Yard.noted`,
`Yard.chronicle`). Every move is one of a few turns of the block (`Block.Turn`), and what is noted is
the event of that turn (`Yard.Wired.turn`).
-/

namespace Tidemark.Retry

variable {ι κ ω : Type}

/-! ## Events -/

/-- How a worker comes to its end with its item. -/
inductive Ending where
  | completed | exhausted | abandoned
  /-- The item has no outcome, since a call for it has crashed. -/
  | lost
  deriving DecidableEq

/-- The end of a worker by which a tally has changed, or has not. -/
def Ending.between (t t' : Tally) : Ending :=
  if t.completed < t'.completed then completed
  else if t.exhausted < t'.exhausted then exhausted
  else if t.abandoned < t'.abandoned then abandoned
  else lost

/-- What happens to an item of a block, by its number. -/
inductive Event where
  /-- It gets into the queue. -/
  | enters (i : ℕ)
  /-- It is handed over: its worker has a slot. -/
  | handed (i : ℕ)
  /-- Its worker begins a call. -/
  | calls (i : ℕ)
  /-- Its worker comes to its end. -/
  | ends (i : ℕ) (e : Ending)
  deriving DecidableEq

namespace Event

/-- The items that got into the queue, in their order. -/
def entered (events : List Event) : List ℕ :=
  events.filterMap fun
    | enters i => some i
    | _ => none

/-- The items that were handed over, in their order. -/
def handedOver (events : List Event) : List ℕ :=
  events.filterMap fun
    | handed i => some i
    | _ => none

/-- The items of the calls that workers have begun, in their order. -/
def called (events : List Event) : List ℕ :=
  events.filterMap fun
    | calls i => some i
    | _ => none

/-- The items whose workers have ended, in their order. -/
def ended (events : List Event) : List ℕ :=
  events.filterMap fun
    | ends i _ => some i
    | _ => none

variable (l l' : List Event)

/-- The items that enter in a series of events and in a further one. -/
@[simp] theorem entered_append : entered (l ++ l') = entered l ++ entered l' :=
  List.filterMap_append

/-- The items that are handed over in a series of events and in a further one. -/
@[simp] theorem handedOver_append : handedOver (l ++ l') = handedOver l ++ handedOver l' :=
  List.filterMap_append

/-- The items that are called for in a series of events and in a further one. -/
@[simp] theorem called_append : called (l ++ l') = called l ++ called l' := List.filterMap_append

/-- The items whose workers end in a series of events and in a further one. -/
@[simp] theorem ended_append : ended (l ++ l') = ended l ++ ended l' := List.filterMap_append

/-- What follows from items being handed over. -/
theorem map_handed (l : List (ℕ × ℕ)) :
    entered (l.map (.handed ·.2)) = [] ∧ handedOver (l.map (.handed ·.2)) = l.map Prod.snd ∧
      called (l.map (.handed ·.2)) = [] ∧ ended (l.map (.handed ·.2)) = [] := by
  refine ⟨?_, ?_, ?_, ?_⟩
  · simp [entered, List.filterMap_map]
  · rw [handedOver, List.filterMap_map, ← List.filterMap_eq_map]
    rfl
  · simp [called, List.filterMap_map]
  · simp [ended, List.filterMap_map]

end Event

/-- The item that the dispatcher has taken from the queue, after the number of its worker. -/
def Block.picked (b : Block (ℕ × ι) (ℕ × κ)) : List (ℕ × ℕ) :=
  match b.dispatcher with
  | .acquiring item k => [(k, item.item.1)]
  | _ => []

/-- The item of the dispatcher, if the worker that is to have it has its slot. -/
def Block.passing (b : Block (ℕ × ι) (ℕ × κ)) : List (ℕ × ℕ) :=
  b.picked.filter (·.1 ∈ b.slots.holding)

/-- The item is handed over whose worker has come to hold a slot. -/
def Block.handing (b b' : Block (ℕ × ι) (ℕ × κ)) : List Event :=
  (b'.passing.filter (·.1 ∉ b.slots.holding)).map (.handed ·.2)

/-- The workers have ended that are gone, in the way that the tally shows. -/
def Block.endings (b b' : Block (ℕ × ι) (ℕ × κ)) : List Event :=
  (b.workers.filter (·.1 ∉ b'.workers.map Prod.fst)).map fun x =>
    .ends x.2.held.id (.between b.tally b'.tally)

/-- What has happened to the items in a block, apart from the calls. -/
def Block.noted (b b' : Block (ℕ × ι) (ℕ × κ)) : List Event :=
  (b'.queue.drop b.queue.length).map (.enters ·.item.1) ++ b.endings b' ++ b.handing b'

namespace Yard

/-- The calls that a worker has begun with a move. -/
def workerCalls (y : Yard ι κ ω) (m : Move ι) (y' : Yard ι κ ω) : List Event :=
  match m with
  | .worker _ _ | .overruns _ _ =>
    (y'.world.2.begun.take (y'.world.2.begun.length - y.world.2.begun.length)).map .calls
  | _ => []

/-- What has happened to items with a move. -/
def noted (y : Yard ι κ ω) (m : Move ι) (y' : Yard ι κ ω) : List Event :=
  y.workerCalls m y' ++ y.block.noted y'.block

/-- What is noted along moves, one after the other. -/
def chronicle {ε : Type} (note : Yard ι κ ω → Move ι → Yard ι κ ω → List ε) (h : Handler ι κ ω) :
    Yard ι κ ω → List (Move ι) → List ε
  | _, [] => []
  | y, m :: ms => note y m (y.move h m) ++ chronicle note h (y.move h m) ms

/-- What is noted along moves of which one is the last. -/
theorem chronicle_concat {ε : Type} (note : Yard ι κ ω → Move ι → Yard ι κ ω → List ε)
    (h : Handler ι κ ω) (y : Yard ι κ ω) (ms : List (Move ι)) (m : Move ι) :
    chronicle note h y (ms ++ [m]) =
      chronicle note h y ms ++ note (y.play h ms) m ((y.play h ms).move h m) := by
  induction ms generalizing y with
  | nil => exact List.append_nil _
  | cons n ms ih =>
    have hrest := ih (y.move h n)
    simp only [List.cons_append, chronicle, hrest, List.append_assoc]
    rfl

/-- A yard after moves of which one is the last. -/
theorem play_concat (h : Handler ι κ ω) (y : Yard ι κ ω) (ms : List (Move ι)) (m : Move ι) :
    y.play h (ms ++ [m]) = (y.play h ms).move h m :=
  List.foldl_concat ..

end Yard

/-! ## Turns -/

/-- Nothing is different for the dispatcher and the workers. -/
structure Block.SameHands (b b' : Block ι κ) : Prop where
  dispatcher : b'.dispatcher = b.dispatcher
  slots : b'.slots = b.slots
  workers : b'.workers = b.workers

/-- What a turn of someone does to a block, with the events that are noted of it. -/
inductive Block.Turn (b : Block (ℕ × ι) (ℕ × κ)) : List Event → Block (ℕ × ι) (ℕ × κ) → Prop where
  /-- Nothing happens to the items in the block. -/
  | idle {b' : Block (ℕ × ι) (ℕ × κ)} (h : b.SameHands b') (hqueue : b'.queue = b.queue) :
    Turn b [] b'
  /-- An item gets into the queue. -/
  | enters {b' : Block (ℕ × ι) (ℕ × κ)} (item : Item (ℕ × ι)) (h : b.SameHands b')
    (hqueue : b'.queue = b.queue ++ [item]) : Turn b [.enters item.item.1] b'
  /-- A worker goes on with its item, and may begin a call. -/
  | goesOn {k : ℕ} {w v : Worker (ℕ × ι) (ℕ × κ)} (tally : Tally) (hk : b.worker? k = some w)
    (hid : v.held.id = w.held.id) {events : List Event}
    (hevents : events = [] ∨ events = [.calls w.held.id]) :
    Turn b events ({ b with tally := tally }.setWorker k v)
  /-- A worker ends. Its slot may pass to the next one. -/
  | ends {k : ℕ} {w : Worker (ℕ × ι) (ℕ × κ)} (tally : Tally) (hk : b.worker? k = some w) :
    Turn b (.ends w.held.id (.between b.tally tally) ::
      b.handing ({ b with tally := tally }.endWorker k)) ({ b with tally := tally }.endWorker k)
  /-- The dispatcher takes the first item of the queue and asks for a slot. -/
  | takes {b' : Block (ℕ × ι) (ℕ × κ)} {item : Item (ℕ × ι)} {rest : List (Item (ℕ × ι))}
    (hdispatcher : b.dispatcher = .receiving) (hqueue : b.queue = item :: rest)
    (hdispatcher' : b'.dispatcher = .acquiring item b.nextWorker) (hqueue' : b'.queue = rest)
    (hslots : b'.slots = b.slots.acquire b.nextWorker) (hworkers : b'.workers = b.workers) :
    Turn b (b.handing b') b'
  /-- The dispatcher starts the worker that has its slot. -/
  | starts {b' : Block (ℕ × ι) (ℕ × κ)} {item : Item (ℕ × ι)} {k : ℕ}
    (hdispatcher : b.dispatcher = .acquiring item k) (hk : k ∈ b.slots.holding)
    (hdispatcher' : b'.dispatcher = .receiving) (hqueue' : b'.queue = b.queue)
    (hslots : b'.slots = b.slots) (hworkers : b'.workers = b.workers ++ [(k, .starting item)]) :
    Turn b [] b'
  /-- The dispatcher sees the end of the queue, or of the last worker. -/
  | closes {b' : Block (ℕ × ι) (ℕ × κ)}
    (hdispatcher : b.dispatcher = .receiving ∨ b.dispatcher = .joining)
    (hdispatcher' : b'.dispatcher = .joining ∨ b'.dispatcher = .done)
    (hqueue' : b'.queue = b.queue) (hslots : b'.slots = b.slots)
    (hworkers : b'.workers = b.workers) : Turn b [] b'

section Blocks

variable {b b' : Block (ℕ × ι) (ℕ × κ)}

/-- Where every worker is still there, none has ended. -/
theorem Block.endings_eq_nil (h : b.workers.map Prod.fst ⊆ b'.workers.map Prod.fst) :
    b.endings b' = [] := by
  have hnone : b.workers.filter (·.1 ∉ b'.workers.map Prod.fst) = [] := by
    refine List.filter_eq_nil_iff.mpr fun x hx => ?_
    simp only [decide_eq_true_eq, not_not]
    exact h (List.mem_map_of_mem hx)
  rw [endings, hnone, List.map_nil]

/-- Where the slots are the same, nothing is handed over. -/
theorem Block.handing_eq_nil (h : b'.slots = b.slots) : b.handing b' = [] := by
  have hnone : b'.passing.filter (·.1 ∉ b.slots.holding) = [] := by
    refine List.filter_eq_nil_iff.mpr fun x hx => ?_
    have hslot := (List.mem_filter.mp hx).2
    rw [h] at hslot
    simpa using hslot
  rw [handing, hnone, List.map_nil]

/-- What is noted where the dispatcher and the workers have done nothing. -/
theorem Block.noted_of_sameHands (hsame : b.SameHands b') :
    b.noted b' = (b'.queue.drop b.queue.length).map (.enters ·.item.1) := by
  have hkeys : b.workers.map Prod.fst ⊆ b'.workers.map Prod.fst := by
    rw [hsame.workers]
    exact List.Subset.refl _
  rw [noted, endings_eq_nil hkeys, handing_eq_nil hsame.slots, List.append_nil, List.append_nil]

/-- What is noted where no item has entered and no worker has ended. -/
theorem Block.noted_of_kept (hkeys : b.workers.map Prod.fst ⊆ b'.workers.map Prod.fst)
    (hqueue : b'.queue.length ≤ b.queue.length) : b.noted b' = b.handing b' := by
  rw [noted, endings_eq_nil hkeys, List.drop_eq_nil_of_le hqueue]
  rfl

/-- The worker that has ended is the one that is gone. -/
theorem Block.endings_endWorker (hb : b.Wired) {k : ℕ} {w : Worker (ℕ × ι) (ℕ × κ)}
    (hk : b.worker? k = some w) (tally : Tally) :
    b.endings ({ b with tally := tally }.endWorker k) =
      [.ends w.held.id (.between b.tally tally)] := by
  obtain ⟨before, after, hworkers, -, hend⟩ := Block.workers_split hb.keys hk
  have hend : ({ b with tally := tally }.endWorker k).workers = before ++ after := hend
  have hkeys := hb.keys
  rw [hworkers, List.map_append, List.map_cons] at hkeys
  have hgone : k ∉ (before ++ after).map Prod.fst := by
    rw [List.map_append]
    exact (List.nodup_middle.mp hkeys).notMem
  have hstays (l : List (ℕ × Worker (ℕ × ι) (ℕ × κ))) (hl : l ⊆ before ++ after) :
      l.filter (·.1 ∉ (before ++ after).map Prod.fst) = [] := by
    refine List.filter_eq_nil_iff.mpr fun x hx => ?_
    simp only [decide_eq_true_eq, not_not]
    exact List.mem_map_of_mem (hl hx)
  unfold endings
  rw [hend, hworkers, List.filter_append, List.filter_cons_of_pos (by simpa using hgone),
    hstays before (List.subset_append_left _ _), hstays after (List.subset_append_right _ _)]
  rfl

/-- A turn by which nothing happens to the items in the block. -/
theorem Block.Turn.of_sameHands (hsame : b.SameHands b') (hqueue : b'.queue = b.queue) :
    b.Turn (b.noted b') b' := by
  rw [Block.noted_of_sameHands hsame, hqueue, List.drop_length]
  exact .idle hsame hqueue

/-- The dispatcher takes its turn. -/
theorem Block.turn_stepDispatcher (b : Block (ℕ × ι) (ℕ × κ)) :
    b.Turn (b.noted b.stepDispatcher) b.stepDispatcher := by
  have hcases := b.stepDispatcher_cases
  generalize b.stepDispatcher = b' at hcases
  have hcloses (hdispatcher : b.dispatcher = .receiving ∨ b.dispatcher = .joining)
      (hdispatcher' : b'.dispatcher = .joining ∨ b'.dispatcher = .done)
      (hqueue' : b'.queue = b.queue) (hslots : b'.slots = b.slots)
      (hworkers : b'.workers = b.workers) : b.Turn (b.noted b') b' := by
    rw [noted_of_kept (by rw [hworkers]; exact List.Subset.refl _) (by rw [hqueue']),
      handing_eq_nil hslots]
    exact .closes hdispatcher hdispatcher' hqueue' hslots hworkers
  rcases hcases with hstep | ⟨item, rest, line, granted, hdispatcher, hqueue, hstep⟩ |
    ⟨hdispatcher, -, -, hstep⟩ | ⟨item, k, hdispatcher, hk, hstep⟩ | ⟨hdispatcher, -, hstep⟩
  · rw [hstep]
    exact .of_sameHands ⟨rfl, rfl, rfl⟩ rfl
  · have hworkers : b'.workers = b.workers := by rw [hstep]
    have hqueue' : b'.queue = rest := by rw [hstep]
    rw [noted_of_kept (by rw [hworkers]; exact List.Subset.refl _) (by simp [hqueue, hqueue'])]
    exact .takes hdispatcher hqueue (by rw [hstep]) hqueue' (by rw [hstep]) hworkers
  · exact hcloses (.inl hdispatcher) (.inl (by rw [hstep])) (by rw [hstep]) (by rw [hstep])
      (by rw [hstep])
  · have hslots : b'.slots = b.slots := by rw [hstep]
    have hworkers : b'.workers = b.workers ++ [(k, .starting item)] := by rw [hstep]
    have hkeys : b.workers.map Prod.fst ⊆ b'.workers.map Prod.fst := by
      rw [hworkers, List.map_append]
      exact List.subset_append_left _ _
    rw [noted_of_kept hkeys (by rw [hstep]), handing_eq_nil hslots]
    exact .starts hdispatcher hk (by rw [hstep]) (by rw [hstep]) hslots hworkers
  · exact hcloses (.inr hdispatcher) (.inr (by rw [hstep])) (by rw [hstep]) (by rw [hstep])
      (by rw [hstep])

/-- A worker that goes on takes no turn that is noted, apart from its call. -/
theorem Block.noted_setWorker (b : Block (ℕ × ι) (ℕ × κ)) (k : ℕ) (v : Worker (ℕ × ι) (ℕ × κ))
    (tally : Tally) : b.noted ({ b with tally := tally }.setWorker k v) = [] := by
  have hkeys : b.workers.map Prod.fst ⊆
      ({ b with tally := tally }.setWorker k v).workers.map Prod.fst := by
    rw [keys_setWorker]
    exact List.Subset.refl _
  rw [noted_of_kept hkeys (le_refl _)]
  exact handing_eq_nil rfl

/-- A worker that ends is noted, and the item to which its slot passes. -/
theorem Block.noted_endWorker (hb : b.Wired) {k : ℕ} {w : Worker (ℕ × ι) (ℕ × κ)}
    (hk : b.worker? k = some w) (tally : Tally) :
    b.noted ({ b with tally := tally }.endWorker k) =
      .ends w.held.id (.between b.tally tally) ::
        b.handing ({ b with tally := tally }.endWorker k) := by
  have hqueue : ({ b with tally := tally }.endWorker k).queue = b.queue := rfl
  rw [noted, hqueue, List.drop_length, endings_endWorker hb hk]
  rfl

end Blocks

/-! ## Posts -/

/-- A post that sends its item gets it into the queue with its end, or leaves the queue. -/
theorem Posting.send_hands (b : Block ι κ) (item : Item ι) :
    b.SameHands (send b item).2 ∧ ((send b item).2.queue = b.queue ∨
      (send b item).1 = .done (.ok ()) ∧ (send b item).2.queue = b.queue ++ [item]) := by
  rcases send_cases b item with ⟨hsend, -⟩ | ⟨hsend, -⟩ | ⟨hsend, -⟩
  · rw [hsend]
    exact ⟨⟨rfl, rfl, rfl⟩, .inl rfl⟩
  · rw [hsend]
    exact ⟨⟨rfl, rfl, rfl⟩, .inr ⟨rfl, rfl⟩⟩
  · rw [hsend]
    exact ⟨⟨rfl, rfl, rfl⟩, .inl rfl⟩

/-- A post has its item ready for the queue. -/
def Posting.Ready (p : Posting ι κ) (item : Item ι) : Prop :=
  p = .sending item ∨ ∃ ticket, p = .waiting item ticket

/-- A post that has its turn gets the item that it has ready into the queue with its end, or leaves
the queue. -/
theorem Posting.Turn.hands {h : Handler ι κ ω} {b b' : Block (ℕ × ι) (ℕ × κ)} {now : Moment}
    {world world' : ω × Record} {p q : Posting (ℕ × ι) (ℕ × κ)}
    (hp : p.Turn h b now world b' world' q) :
    b.SameHands b' ∧ (b'.queue = b.queue ∨
      ∃ item, p.Ready item ∧ q = .done (.ok ()) ∧ b'.queue = b.queue ++ [item]) := by
  cases hp with
  | begins | turned | succeeds | crashes | exhausts | fails | waits | ended =>
    exact ⟨⟨rfl, rfl, rfl⟩, .inl rfl⟩
  | @sends item =>
    obtain ⟨hsame, hqueue | ⟨hdone, hqueue⟩⟩ := send_hands b item
    · exact ⟨hsame, .inl hqueue⟩
    · exact ⟨hsame, .inr ⟨item, .inl rfl, hdone, hqueue⟩⟩
  | @enters item ticket => exact ⟨⟨rfl, rfl, rfl⟩, .inr ⟨item, .inr ⟨ticket, rfl⟩, rfl, rfl⟩⟩

namespace Yard

variable {h : Handler ι κ ω} {y : Yard ι κ ω}

/-- A post that has its turn leaves the dispatcher and the workers alone. If the queue changes then
the post gets the item that it has ready into it, and ends. -/
theorem stepPoster_hands (h : Handler ι κ ω) (y : Yard ι κ ω) (i : ℕ) (now : Moment) :
    y.block.SameHands (y.stepPoster h i now).block ∧
      ((y.stepPoster h i now).block.queue = y.block.queue ∨
        ∃ p item, y.posts[i]? = some p ∧ p.Ready item ∧
          (y.stepPoster h i now).posts = y.posts.set i (.done (.ok ())) ∧
            (y.stepPoster h i now).block.queue = y.block.queue ++ [item]) := by
  rcases y.stepPoster_cases h i now with hstep | ⟨p, hp, -, hstep⟩ | ⟨item, hp, -, hstep⟩
  · rw [hstep]
    exact ⟨⟨rfl, rfl, rfl⟩, .inl rfl⟩
  · obtain ⟨hsame, hqueue | ⟨item, hready, hdone, hqueue⟩⟩ :=
      (p.step_turn h y.block y.metrics now y.world).hands
    · rw [hstep]
      exact ⟨hsame, .inl hqueue⟩
    · rw [hstep]
      exact ⟨hsame, .inr ⟨p, item, hp, hready, by rw [hdone], hqueue⟩⟩
  · obtain ⟨hsame, hqueue | ⟨hdone, hqueue⟩⟩ :=
      Posting.send_hands { y.block with isOpen := true } item
    · rw [hstep]
      exact ⟨⟨hsame.dispatcher, hsame.slots, hsame.workers⟩, .inl hqueue⟩
    · rw [hstep]
      exact ⟨⟨hsame.dispatcher, hsame.slots, hsame.workers⟩,
        .inr ⟨_, item, hp, .inl rfl, by rw [hdone], hqueue⟩⟩

/-- Where no call was begun, no call is noted. -/
theorem workerCalls_eq_nil {y' : Yard ι κ ω} (m : Move ι)
    (hbegun : y'.world.2.begun = y.world.2.begun) : y.workerCalls m y' = [] := by
  unfold workerCalls
  split
  all_goals simp [hbegun]

/-- A post takes its turn. -/
theorem turn_stepPoster (h : Handler ι κ ω) (y : Yard ι κ ω) (i : ℕ) (now : Moment) :
    y.block.Turn (y.block.noted (y.stepPoster h i now).block) (y.stepPoster h i now).block := by
  obtain ⟨hsame, hqueue | ⟨p, item, -, -, -, hqueue⟩⟩ := y.stepPoster_hands h i now
  · exact .of_sameHands hsame hqueue
  · rw [Block.noted_of_sameHands hsame, hqueue, List.drop_left]
    exact .enters item hsame hqueue

end Yard

/-! ## Workers -/

/-- Something is lost only where no count has changed. -/
theorem Ending.between_ne_lost {t t' : Tally}
    (h : t.completed < t'.completed ∨ t.exhausted < t'.exhausted ∨ t.abandoned < t'.abandoned) :
    between t t' ≠ lost := by
  unfold between
  rcases h with h | h | h
  all_goals split_ifs <;> simp_all

/-- A call of a worker has crashed. -/
def Worker.Crashes (h : Handler ι κ ω) (w : Worker (ℕ × ι) (ℕ × κ)) (now : Moment) (world : ω) :
    Prop :=
  ∃ item call due cause, w = .calling item call due ∧
    (h.finish call.2 now world).1 = .error (.crash cause)

/-- A worker that goes on begins at most one call for its item. -/
theorem Worker.Turn.begun_of_some {h : Handler ι κ ω} {b : Block (ℕ × ι) (ℕ × κ)} {now : Moment}
    {world world' : ω × Record} {w v : Worker (ℕ × ι) (ℕ × κ)} {tally : Tally}
    (hw : w.Turn h b now world tally world' (some v)) :
    world'.2.begun = world.2.begun ∨ world'.2.begun = w.held.id :: world.2.begun := by
  cases hw with
  | begins | resumes => exact .inr rfl
  | rests => exact .inl rfl
  | fails => exact .inl (world.2.begun_ends _ _)

/-- A worker that ends begins no call, and its item is lost only if a call for it has crashed. -/
theorem Worker.Turn.ends_of_none {h : Handler ι κ ω} {b : Block (ℕ × ι) (ℕ × κ)} {now : Moment}
    {world world' : ω × Record} {w : Worker (ℕ × ι) (ℕ × κ)} {tally : Tally}
    (hw : w.Turn h b now world tally world' none) :
    world'.2.begun = world.2.begun ∧
      (Ending.between b.tally tally = .lost → w.Crashes h now world.1) := by
  have hcompleted (hlt : b.tally.completed < tally.completed) :=
    Ending.between_ne_lost (.inl hlt)
  have hexhausted (hlt : b.tally.exhausted < tally.exhausted) :=
    Ending.between_ne_lost (.inr (.inl hlt))
  have habandoned (hlt : b.tally.abandoned < tally.abandoned) :=
    Ending.between_ne_lost (.inr (.inr hlt))
  cases hw with
  | turnsAway => exact ⟨rfl, (absurd · (habandoned (Nat.lt_succ_self _)))⟩
  | abandons => exact ⟨rfl, (absurd · (habandoned (Nat.lt_succ_self _)))⟩
  | succeeds => exact ⟨world.2.begun_ends _ _, (absurd · (hcompleted (Nat.lt_succ_self _)))⟩
  | exhausts => exact ⟨world.2.begun_ends _ _, (absurd · (hexhausted (Nat.lt_succ_self _)))⟩
  | givesUp => exact ⟨world.2.begun_ends _ _, (absurd · (habandoned (Nat.lt_succ_self _)))⟩
  | crashes hfinish => exact ⟨rfl, fun _ => ⟨_, _, _, _, rfl, by rw [hfinish]⟩⟩

/-- A worker goes on with its item and begins at most one call for it, or it ends. Its item is lost
only if a call for it has crashed. -/
theorem Block.stepWorker_hands (h : Handler ι κ ω) {b : Block (ℕ × ι) (ℕ × κ)} (m : Metrics) {k : ℕ}
    {w : Worker (ℕ × ι) (ℕ × κ)} (hk : b.worker? k = some w) (now : Moment) (world : ω × Record) :
    let r := b.stepWorker (audited h) m k now world
    (∃ tally v, r.1 = { b with tally := tally }.setWorker k v ∧ v.held.id = w.held.id ∧
      (r.2.2.2.begun = world.2.begun ∨ r.2.2.2.begun = w.held.id :: world.2.begun)) ∨
      ∃ tally, r.1 = { b with tally := tally }.endWorker k ∧ r.2.2.2.begun = world.2.begun ∧
        (Ending.between b.tally tally = .lost → w.Crashes h now world.1) := by
  intro r
  obtain ⟨tally, w', hturn, hstep⟩ := Block.stepWorker_turn h m hk now world
  cases w' with
  | some v => exact .inl ⟨tally, v, hstep, hturn.keeps.2, hturn.begun_of_some⟩
  | none => exact .inr ⟨tally, hstep, hturn.ends_of_none⟩

namespace Yard

variable {h : Handler ι κ ω} {y : Yard ι κ ω}

/-- The call that a worker has begun is noted. -/
theorem workerCalls_cases {y' : Yard ι κ ω} {m : Move ι} {k i : ℕ} {now : Moment}
    (hm : m = .worker k now ∨ m = .overruns k now)
    (hbegun : y'.world.2.begun = y.world.2.begun ∨ y'.world.2.begun = i :: y.world.2.begun) :
    y.workerCalls m y' = [] ∨ y.workerCalls m y' = [.calls i] := by
  rcases hbegun with hbegun | hbegun
  · exact .inl (workerCalls_eq_nil m hbegun)
  · rcases hm with rfl | rfl
    all_goals exact .inr (by simp [workerCalls, hbegun])

/-- A worker takes its turn. -/
theorem turn_stepWorker (h : Handler ι κ ω) (hy : y.block.Wired) (k : ℕ) (now : Moment) :
    y.block.Turn (y.noted (.worker k now) (y.stepWorker h k now)) (y.stepWorker h k now).block := by
  cases hk : y.block.worker? k with
  | none =>
    have hstep : y.stepWorker h k now = y := by
      unfold stepWorker Block.stepWorker
      simp only [hk]
    rw [hstep, noted, workerCalls_eq_nil _ rfl]
    exact .of_sameHands ⟨rfl, rfl, rfl⟩ rfl
  | some w =>
    have hblock : (y.stepWorker h k now).block =
        (y.block.stepWorker (audited h) y.metrics k now y.world).1 := rfl
    have hworld : (y.stepWorker h k now).world =
        (y.block.stepWorker (audited h) y.metrics k now y.world).2.2 := rfl
    rcases Block.stepWorker_hands h y.metrics hk now y.world with
      ⟨tally, v, hr, hid, hbegun⟩ | ⟨tally, hr, hbegun, -⟩
    · rw [← hworld] at hbegun
      rw [noted, hblock, hr, Block.noted_setWorker, List.append_nil]
      exact .goesOn tally hk hid (workerCalls_cases (.inl rfl) hbegun)
    · rw [← hworld] at hbegun
      rw [noted, workerCalls_eq_nil _ hbegun, List.nil_append, hblock, hr,
        Block.noted_endWorker hy hk]
      exact .ends tally hk

/-- A worker that begins a further attempt after all takes its turn. -/
theorem turn_overrun (h : Handler ι κ ω) (y : Yard ι κ ω) (k : ℕ) (now : Moment) :
    y.block.Turn (y.noted (.overruns k now) (y.overrun h k now)) (y.overrun h k now).block := by
  have hidle : y.block.Turn (y.noted (.overruns k now) y) y.block := by
    rw [noted, workerCalls_eq_nil _ rfl]
    exact .of_sameHands ⟨rfl, rfl, rfl⟩ rfl
  unfold overrun
  rcases hk : y.block.worker? k with _ | (_ | ⟨item, due⟩ | _)
  case some.resting =>
    obtain ⟨call, due', inner, hattempt⟩ := y.block.attempt_audited h k item now y.world
    simp only [hattempt]
    rw [noted, Block.noted_setWorker _ _ _ y.block.tally, List.append_nil]
    let v : Worker (ℕ × ι) (ℕ × κ) :=
      .calling ⟨item.item, item.attempts + 1⟩ (item.item.1, call) due'
    exact .goesOn (v := v) y.block.tally hk rfl (workerCalls_cases (.inr rfl) (.inr rfl))
  all_goals exact hidle

/-- Every move is a turn of the block, and what is noted of it is the event of the turn. -/
theorem Wired.turn (hy : y.Wired) (h : Handler ι κ ω) (m : Move ι) :
    y.block.Turn (y.noted m (y.move h m)) (y.move h m).block := by
  cases m with
  | post | postAsync | drain | shutdown | signals => exact .of_sameHands ⟨rfl, rfl, rfl⟩ rfl
  | poster i now => exact turn_stepPoster h y i now
  | holds i =>
    show y.block.Turn (y.block.noted (y.hold i).block) (y.hold i).block
    rcases y.hold_cases i with hstep | ⟨hstep, -⟩
    · rw [hstep]
      exact .of_sameHands ⟨rfl, rfl, rfl⟩ rfl
    · rw [hstep]
      exact .of_sameHands ⟨rfl, rfl, rfl⟩ rfl
  | dispatcher =>
    show y.block.Turn (y.block.noted y.stepDispatcher.block) y.stepDispatcher.block
    rcases y.stepDispatcher_cases with hstep | ⟨hstep, -⟩
    · rw [hstep]
      exact .of_sameHands ⟨rfl, rfl, rfl⟩ rfl
    · rw [hstep]
      exact Block.turn_stepDispatcher y.block
  | worker k now => exact turn_stepWorker h hy.block k now
  | overruns k now => exact turn_overrun h y k now

end Yard

end Tidemark.Retry
