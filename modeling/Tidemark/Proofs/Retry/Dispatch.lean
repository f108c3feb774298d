import Tidemark.Proofs.Retry.Conservation
import Tidemark.Proofs.Retry.Handover

/-!
# Slots and the order of a retry block

An item is handed over when its worker comes to have a slot, and is in hand until the worker ends
(`Block.inHand`). Slots, queue and events fit together in every state of a block
(`Block.Dispatched`), since every turn keeps them so. Along the moves in a yard it follows that the
items are handed over in the order in which they have entered, and that with one slot they are dealt
with one after the other (`Yard.hands_over_in_order`).
-/

namespace Tidemark

/-- How many slots of a bulkhead are free. -/
def Bulkhead.free {ι : Type} (b : Bulkhead ι) : ℕ := b.limit - b.holding.length

namespace Retry

variable {ι κ ω : Type}

/-- The item of the dispatcher, if the worker that is to have it waits for its slot. -/
def Block.barred (b : Block (ℕ × ι) (ℕ × κ)) : List (ℕ × ℕ) :=
  b.picked.filter (·.1 ∉ b.slots.holding)

/-- The items that were handed over and whose workers have not ended. -/
def Block.inHand (b : Block (ℕ × ι) (ℕ × κ)) : List ℕ :=
  b.workers.map (·.2.held.id) ++ b.passing.map Prod.snd

/-- The slots of a block and the events that were noted of it fit together. -/
structure Block.Dispatched (limit : ℕ) (b : Block (ℕ × ι) (ℕ × κ)) (events : List Event) : Prop where
  slots : b.slots.limit = limit
  /-- Every slot is held by a worker, or by one that is just about to start. -/
  holders : b.slots.holding.Perm (b.workers.map Prod.fst ++ b.passing.map Prod.fst)
  bounded : b.slots.holding.length ≤ limit
  waiting : b.slots.waiting = b.barred.map Prod.fst
  /-- The dispatcher waits for a slot only while all of them are taken. -/
  full : b.barred ≠ [] → b.slots.holding.length = limit
  order : Event.entered events =
    Event.handedOver events ++ b.barred.map Prod.snd ++ b.queue.map (·.item.1)
  hands : (Event.handedOver events).Perm (Event.ended events ++ b.inHand)
  /-- With one slot, the items come to their end in their order. -/
  single : limit = 1 → Event.handedOver events = Event.ended events ++ b.inHand
  called : Event.called events ⊆ Event.handedOver events

section Blocks

variable {limit : ℕ} {b b' : Block (ℕ × ι) (ℕ × κ)} {events : List Event}

/-- The dispatcher has no item, or one whose worker has its slot or waits for it. -/
theorem Block.picked_cases (b : Block (ℕ × ι) (ℕ × κ)) :
    b.picked = [] ∧ b.passing = [] ∧ b.barred = [] ∨
      ∃ item k, b.dispatcher = .acquiring item k ∧ b.picked = [(k, item.item.1)] ∧
        (k ∈ b.slots.holding ∧ b.passing = [(k, item.item.1)] ∧ b.barred = [] ∨
          k ∉ b.slots.holding ∧ b.passing = [] ∧ b.barred = [(k, item.item.1)]) := by
  rcases hdispatcher : b.dispatcher with _ | ⟨item, k⟩ | _ | _
  case acquiring =>
    have hpicked : b.picked = [(k, item.item.1)] := by rw [picked, hdispatcher]
    refine .inr ⟨item, k, rfl, hpicked, ?_⟩
    by_cases hk : k ∈ b.slots.holding
    · exact .inl ⟨hk, by simp [passing, hpicked, hk], by simp [barred, hpicked, hk]⟩
    · exact .inr ⟨hk, by simp [passing, hpicked, hk], by simp [barred, hpicked, hk]⟩
  all_goals
    have hpicked : b.picked = [] := by rw [picked, hdispatcher]
    exact .inl ⟨hpicked, by simp [passing, hpicked], by simp [barred, hpicked]⟩

/-- The dispatcher has no item where it neither waits for a slot nor has one to pass on. -/
theorem Block.nothing_picked (h : b.picked = []) : b.passing = [] ∧ b.barred = [] := by
  simp [passing, barred, h]

namespace Block.Dispatched

/-- Where the dispatcher and the workers have the same hands, only the queue matters. -/
theorem of_sameHands (hd : b.Dispatched limit events) (hsame : b.SameHands b')
    {new : List Event} (hhanded : Event.handedOver new = []) (hended : Event.ended new = [])
    (hcalled : Event.called new = [])
    (hqueue : b'.queue.map (·.item.1) = b.queue.map (·.item.1) ++ Event.entered new) :
    b'.Dispatched limit (events ++ new) := by
  have hpicked : b'.picked = b.picked := by rw [picked, hsame.dispatcher, picked]
  have hpassing : b'.passing = b.passing := by rw [passing, hpicked, hsame.slots, passing]
  have hbarred : b'.barred = b.barred := by rw [barred, hpicked, hsame.slots, barred]
  have hinHand : b'.inHand = b.inHand := by rw [inHand, hsame.workers, hpassing, inHand]
  constructor
  · rw [hsame.slots]; exact hd.slots
  · rw [hsame.slots, hsame.workers, hpassing]; exact hd.holders
  · rw [hsame.slots]; exact hd.bounded
  · rw [hsame.slots, hbarred]; exact hd.waiting
  · rw [hsame.slots, hbarred]; exact hd.full
  · rw [Event.entered_append, Event.handedOver_append, hhanded, List.append_nil, hbarred, hqueue,
      hd.order]
    simp only [List.append_assoc]
  · rw [Event.handedOver_append, Event.ended_append, hhanded, hended, hinHand]
    simpa only [List.append_nil] using hd.hands
  · rw [Event.handedOver_append, Event.ended_append, hhanded, hended, hinHand]
    simpa only [List.append_nil] using hd.single
  · rw [Event.called_append, Event.handedOver_append, hcalled, hhanded]
    simpa only [List.append_nil] using hd.called

/-- The item of a worker is in hand. -/
theorem mem_handedOver (hd : b.Dispatched limit events) {k : ℕ} {w : Worker (ℕ × ι) (ℕ × κ)}
    (hk : b.worker? k = some w) : w.held.id ∈ Event.handedOver events := by
  obtain ⟨before, after, hworkers, -⟩ := List.lookup_eq_some_iff.mp hk
  refine hd.hands.mem_iff.mpr (List.mem_append_right _ (List.mem_append_left _ ?_))
  rw [hworkers]
  exact List.mem_map.mpr ⟨(k, w), by simp, rfl⟩

/-- With one slot, a worker is alone. -/
theorem alone (hd : b.Dispatched 1 events) {k : ℕ} {w : Worker (ℕ × ι) (ℕ × κ)}
    (hk : b.worker? k = some w) : b.workers = [(k, w)] ∧ b.passing = [] := by
  obtain ⟨before, after, hworkers, -⟩ := List.lookup_eq_some_iff.mp hk
  have hlength := hd.holders.length_eq
  have hbounded := hd.bounded
  rw [hworkers] at hlength
  simp only [List.length_append, List.length_map, List.length_cons] at hlength
  have hbefore : before = [] := List.eq_nil_of_length_eq_zero (by omega)
  have hafter : after = [] := List.eq_nil_of_length_eq_zero (by omega)
  refine ⟨?_, List.eq_nil_of_length_eq_zero (by omega)⟩
  rw [hworkers, hbefore, hafter, List.nil_append]

/-- A worker that goes on keeps slots and events in order. -/
theorem goesOn (hd : b.Dispatched limit events) (hb : b.Wired) {k : ℕ}
    {w v : Worker (ℕ × ι) (ℕ × κ)} (tally : Tally) (hk : b.worker? k = some w)
    (hid : v.held.id = w.held.id) {new : List Event} (hnew : new = [] ∨ new = [.calls w.held.id]) :
    ({ b with tally := tally }.setWorker k v).Dispatched limit (events ++ new) := by
  obtain ⟨before, after, hworkers, hset, -⟩ := Block.workers_split hb.keys hk
  have hset : ({ b with tally := tally }.setWorker k v).workers = before ++ (k, v) :: after := hset v
  have hids : ({ b with tally := tally }.setWorker k v).inHand = b.inHand := by
    show List.map _ _ ++ b.passing.map Prod.snd = _
    rw [hset, inHand, hworkers]
    simp only [List.map_append, List.map_cons, hid]
  have hothers : Event.entered new = [] ∧ Event.handedOver new = [] ∧ Event.ended new = [] := by
    rcases hnew with rfl | rfl
    · exact ⟨rfl, rfl, rfl⟩
    · exact ⟨rfl, rfl, rfl⟩
  have hcalled : Event.called new ⊆ Event.handedOver events := by
    rcases hnew with rfl | rfl
    · exact List.nil_subset _
    · exact List.cons_subset.mpr ⟨hd.mem_handedOver hk, List.nil_subset _⟩
  refine ⟨hd.slots, ?_, hd.bounded, hd.waiting, hd.full, ?_, ?_, ?_, ?_⟩
  · rw [Block.keys_setWorker]
    exact hd.holders
  · rw [Event.entered_append, Event.handedOver_append, hothers.1, hothers.2.1, List.append_nil,
      List.append_nil]
    exact hd.order
  · rw [Event.handedOver_append, Event.ended_append, hothers.2.1, hothers.2.2, hids,
      List.append_nil, List.append_nil]
    exact hd.hands
  · rw [Event.handedOver_append, Event.ended_append, hothers.2.1, hothers.2.2, hids,
      List.append_nil, List.append_nil]
    exact hd.single
  · rw [Event.called_append, Event.handedOver_append, hothers.2.1, List.append_nil]
    exact List.append_subset.mpr ⟨hd.called, hcalled⟩

/-- The slot of a worker that ends becomes free, or passes to the worker that waits for it. -/
theorem release (hd : b.Dispatched limit events) (hb : b.Wired) {k : ℕ}
    {w : Worker (ℕ × ι) (ℕ × κ)} (hk : b.worker? k = some w) (hmem : k ∈ b.slots.holding)
    {b' : Block (ℕ × ι) (ℕ × κ)} (hslots : b'.slots = b.slots.release k)
    (hpicked : b'.picked = b.picked) :
    b'.slots = { b.slots with
      holding := b.slots.holding.erase k ++ b.barred.map Prod.fst, waiting := [] } ∧
      b'.passing = b.passing ++ b.barred ∧ b'.barred = [] ∧
        b.handing b' = b.barred.map (.handed ·.2) := by
  have hreleased : b'.slots = { b.slots with
      holding := b.slots.holding.erase k ++ b.barred.map Prod.fst, waiting := [] } := by
    have hwaiting := hd.waiting
    rw [hslots, Bulkhead.release, if_pos hmem]
    rcases b.picked_cases with ⟨-, -, hbarred⟩ | ⟨item, j, -, -, ⟨-, -, hbarred⟩ | ⟨-, -, hbarred⟩⟩
    all_goals
      rw [hbarred] at hwaiting ⊢
      simp only [hwaiting, List.map_nil, List.map_cons, List.append_nil]
  refine ⟨hreleased, ?_⟩
  rcases b.picked_cases with
    ⟨hnone, hpassing, hbarred⟩ | ⟨item, j, hdispatcher, hsome, hcases⟩
  · obtain ⟨hpassing', hbarred'⟩ := Block.nothing_picked (hpicked.trans hnone)
    rw [handing, hpassing', hbarred', hpassing, hbarred]
    exact ⟨rfl, rfl, rfl⟩
  · -- The number of the worker that is about to start is not that of the worker that ends.
    have hne : j ≠ k := by
      rintro rfl
      obtain ⟨before, after, hworkers, -⟩ := List.lookup_eq_some_iff.mp hk
      refine (hb.acquiring item j hdispatcher).2 ?_
      rw [hworkers]
      exact List.mem_map.mpr ⟨(j, w), by simp, rfl⟩
    have hholds : j ∈ b'.slots.holding := by
      rw [hreleased]
      rcases hcases with ⟨hj, -, hbarred⟩ | ⟨-, -, hbarred⟩
      · exact List.mem_append_left _ ((List.mem_erase_of_ne hne).mpr hj)
      · rw [hbarred]
        exact List.mem_append_right _ List.mem_cons_self
    have hpassing' : b'.passing = [(j, item.item.1)] := by
      rw [passing, hpicked, hsome]
      simp [hholds]
    have hbarred' : b'.barred = [] := by
      rw [Block.barred, hpicked, hsome]
      simp [hholds]
    rw [handing, hpassing', hbarred']
    rcases hcases with ⟨hj, hpassing, hbarred⟩ | ⟨hj, hpassing, hbarred⟩
    · rw [hpassing, hbarred]
      exact ⟨rfl, rfl, by simp [hj]⟩
    · rw [hpassing, hbarred]
      exact ⟨rfl, rfl, by simp [hj]⟩

/-- A worker that ends gives its slot back or passes it on, and keeps slots and events in order. -/
theorem ends (hd : b.Dispatched limit events) (hb : b.Wired) {k : ℕ} {w : Worker (ℕ × ι) (ℕ × κ)}
    (tally : Tally) (hk : b.worker? k = some w) (e : Ending) :
    ({ b with tally := tally }.endWorker k).Dispatched limit
      (events ++ (Event.ends w.held.id e :: b.handing ({ b with tally := tally }.endWorker k))) := by
  obtain ⟨before, after, hworkers, -, hend⟩ := Block.workers_split hb.keys hk
  generalize hb' : { b with tally := tally }.endWorker k = b'
  have hworkers' : b'.workers = before ++ after := by rw [← hb']; exact hend
  have hqueue : b'.queue = b.queue := by rw [← hb']; rfl
  have hreleases : b'.slots = b.slots.release k := by rw [← hb']; rfl
  have hpicked : b'.picked = b.picked := by rw [← hb']; rfl
  -- The worker holds a slot, which the others do not.
  have hholders : b.slots.holding.Perm
      (k :: ((before ++ after).map Prod.fst ++ b.passing.map Prod.fst)) := by
    have hall := hd.holders
    rw [hworkers, List.map_append, List.map_cons, List.append_assoc] at hall
    rw [List.map_append, List.append_assoc]
    exact hall.trans List.perm_middle
  have hmem : k ∈ b.slots.holding := hholders.mem_iff.mpr List.mem_cons_self
  obtain ⟨hslots, hpassing, hbarred, hhanding⟩ :=
    hd.release hb hk hmem hreleases hpicked
  obtain ⟨hentered, hhanded, hcalled, hended⟩ := Event.map_handed b.barred
  have hentered : Event.entered (events ++ (Event.ends w.held.id e :: b.handing b')) =
      Event.entered events := by
    rw [hhanding, ← List.singleton_append, Event.entered_append, Event.entered_append, hentered]
    exact List.append_nil _
  have hhanded : Event.handedOver (events ++ (Event.ends w.held.id e :: b.handing b')) =
      Event.handedOver events ++ b.barred.map Prod.snd := by
    rw [hhanding, ← List.singleton_append, Event.handedOver_append, Event.handedOver_append,
      hhanded]
    rfl
  have hcalled : Event.called (events ++ (Event.ends w.held.id e :: b.handing b')) =
      Event.called events := by
    rw [hhanding, ← List.singleton_append, Event.called_append, Event.called_append, hcalled]
    exact List.append_nil _
  have hended : Event.ended (events ++ (Event.ends w.held.id e :: b.handing b')) =
      Event.ended events ++ [w.held.id] := by
    rw [hhanding, ← List.singleton_append, Event.ended_append, Event.ended_append, hended]
    rfl
  have herase : (b.slots.holding.erase k).Perm
      ((before ++ after).map Prod.fst ++ b.passing.map Prod.fst) := by
    have hrest := hholders.erase k
    rwa [List.erase_cons_head] at hrest
  have hlength : (b.slots.holding.erase k).length + 1 = b.slots.holding.length :=
    List.length_erase_add_one hmem
  have hkeys : b'.passing.map Prod.fst = b.passing.map Prod.fst ++ b.barred.map Prod.fst := by
    rw [hpassing, List.map_append]
  have hids : b'.passing.map Prod.snd = b.passing.map Prod.snd ++ b.barred.map Prod.snd := by
    rw [hpassing, List.map_append]
  have hinHand : b'.inHand =
      (before ++ after).map (·.2.held.id) ++ b.passing.map Prod.snd ++ b.barred.map Prod.snd := by
    rw [Block.inHand, hworkers', hids, List.append_assoc]
  constructor
  · rw [hslots]
    exact hd.slots
  · rw [hslots, hworkers', hkeys, ← List.append_assoc]
    exact herase.append_right _
  · rw [hslots, List.length_append]
    have hbounded := hd.bounded
    rcases b.picked_cases with ⟨-, -, hnone⟩ | ⟨item, j, -, -, ⟨-, -, hnone⟩ | ⟨-, -, hsome⟩⟩
    · rw [hnone, List.map_nil, List.length_nil]
      omega
    · rw [hnone, List.map_nil, List.length_nil]
      omega
    · rw [hsome, List.map_cons, List.map_nil, List.length_singleton]
      omega
  · rw [hslots, hbarred]
    rfl
  · exact fun hne => absurd hbarred hne
  · rw [hentered, hhanded, hbarred, hqueue, hd.order, List.map_nil, List.append_nil]
  · rw [hhanded, hended, hinHand, ← List.append_assoc, List.append_assoc (Event.ended events)]
    refine List.Perm.append_right _ (hd.hands.trans ?_)
    rw [Block.inHand, hworkers, List.map_append, List.map_cons, List.append_assoc]
    refine List.Perm.append_left _ ?_
    rw [List.map_append, List.append_assoc]
    exact List.perm_middle
  · rintro rfl
    -- No other worker is there, and no other item has a slot.
    obtain ⟨halone, hpassing'⟩ := hd.alone hk
    have hothers : before ++ after = [] := by
      have hcount := congrArg List.length (hworkers.symm.trans halone)
      simp only [List.length_append, List.length_cons, List.length_nil] at hcount
      exact List.eq_nil_of_length_eq_zero (by rw [List.length_append]; omega)
    rw [hhanded, hended, hinHand, hd.single rfl, Block.inHand, halone, hothers, hpassing']
    rfl
  · rw [hcalled, hhanded]
    exact List.subset_append_of_subset_left _ hd.called

/-- The dispatcher that takes an item and asks for a slot keeps slots and events in order. -/
theorem takes (hd : b.Dispatched limit events) (hb : b.Wired) {item : Item (ℕ × ι)}
    {rest : List (Item (ℕ × ι))} (hdispatcher : b.dispatcher = .receiving)
    (hqueue : b.queue = item :: rest) (hdispatcher' : b'.dispatcher = .acquiring item b.nextWorker)
    (hqueue' : b'.queue = rest) (hslots : b'.slots = b.slots.acquire b.nextWorker)
    (hworkers : b'.workers = b.workers) : b'.Dispatched limit (events ++ b.handing b') := by
  have hnone : b.picked = [] := by rw [picked, hdispatcher]
  obtain ⟨hpassing, hbarred⟩ := Block.nothing_picked hnone
  have hsome : b'.picked = [(b.nextWorker, item.item.1)] := by rw [picked, hdispatcher']
  have hholders := hd.holders
  have hwaiting := hd.waiting
  have horder := hd.order
  rw [hpassing, List.map_nil, List.append_nil] at hholders
  rw [hbarred, List.map_nil] at hwaiting
  rw [hbarred, hqueue, List.map_nil, List.append_nil, List.map_cons] at horder
  have hnew : b.nextWorker ∉ b.slots.holding := fun hmem =>
    lt_irrefl _ (hb.below _ (hholders.mem_iff.mp hmem))
  by_cases hroom : b.slots.hasRoom = true
  · -- A slot is free, so that the item is handed over at once.
    rw [Bulkhead.acquire, if_pos hroom] at hslots
    have hpassing' : b'.passing = [(b.nextWorker, item.item.1)] := by
      rw [passing, hsome, hslots]
      simp
    have hbarred' : b'.barred = [] := by
      rw [Block.barred, hsome, hslots]
      simp
    have hhanding : b.handing b' = [.handed item.item.1] := by
      rw [handing, hpassing']
      simp [hnew]
    have hinHand : b'.inHand = b.inHand ++ [item.item.1] := by
      rw [inHand, hworkers, hpassing', inHand, hpassing, List.append_assoc]
      rfl
    have hfree : b.slots.holding.length < limit := by
      rw [← hd.slots]
      simpa [Bulkhead.hasRoom] using hroom
    have hhanded : Event.handedOver (events ++ b.handing b') =
        Event.handedOver events ++ [item.item.1] := by
      rw [hhanding, Event.handedOver_append]
      rfl
    have hended : Event.ended (events ++ b.handing b') = Event.ended events := by
      rw [hhanding, Event.ended_append]
      exact List.append_nil _
    constructor
    · rw [hslots]
      exact hd.slots
    · rw [hslots, hworkers, hpassing']
      exact hholders.append_right _
    · rw [hslots, List.length_append]
      exact hfree
    · rw [hslots, hbarred']
      exact hwaiting
    · exact fun hne => absurd hbarred' hne
    · rw [hhanded, hhanding, Event.entered_append, horder, hbarred', hqueue', List.map_nil,
        List.append_nil, List.append_assoc, List.append_assoc]
      exact congrArg (Event.handedOver events ++ ·) (List.append_nil _)
    · rw [hhanded, hended, hinHand, ← List.append_assoc]
      exact hd.hands.append_right _
    · intro hone
      rw [hhanded, hended, hinHand, hd.single hone, List.append_assoc]
    · rw [hhanded, hhanding, Event.called_append]
      exact List.append_subset.mpr
        ⟨List.subset_append_of_subset_left _ hd.called, List.nil_subset _⟩
  · -- All slots are taken, so that the dispatcher waits with the item.
    rw [Bulkhead.acquire, if_neg hroom] at hslots
    have hpassing' : b'.passing = [] := by
      rw [passing, hsome, hslots]
      simp [hnew]
    have hbarred' : b'.barred = [(b.nextWorker, item.item.1)] := by
      rw [Block.barred, hsome, hslots]
      simp [hnew]
    have hhanding : b.handing b' = [] := by
      rw [handing, hpassing']
      rfl
    have hinHand : b'.inHand = b.inHand := by
      rw [inHand, hworkers, hpassing', inHand, hpassing]
    have hfull : b.slots.holding.length = limit := by
      have hlimit := hd.slots
      have hbounded := hd.bounded
      have htaken : ¬ b.slots.holding.length < b.slots.limit := by
        simpa [Bulkhead.hasRoom] using hroom
      omega
    rw [hhanding, List.append_nil]
    constructor
    · rw [hslots]
      exact hd.slots
    · rw [hslots, hworkers, hpassing', List.map_nil, List.append_nil]
      exact hholders
    · rw [hslots]
      exact hd.bounded
    · rw [hslots, hbarred', hwaiting]
      rfl
    · rw [hslots]
      exact fun _ => hfull
    · rw [horder, hbarred', hqueue', List.append_assoc]
      rfl
    · rw [hinHand]
      exact hd.hands
    · rw [hinHand]
      exact hd.single
    · exact hd.called

/-- The dispatcher that starts a worker keeps slots and events in order. -/
theorem starts (hd : b.Dispatched limit events) {item : Item (ℕ × ι)} {k : ℕ}
    (hdispatcher : b.dispatcher = .acquiring item k) (hk : k ∈ b.slots.holding)
    (hdispatcher' : b'.dispatcher = .receiving) (hqueue' : b'.queue = b.queue)
    (hslots : b'.slots = b.slots) (hworkers : b'.workers = b.workers ++ [(k, .starting item)]) :
    b'.Dispatched limit events := by
  have hsome : b.picked = [(k, item.item.1)] := by rw [picked, hdispatcher]
  have hpassing : b.passing = [(k, item.item.1)] := by simp [passing, hsome, hk]
  have hbarred : b.barred = [] := by simp [Block.barred, hsome, hk]
  obtain ⟨hpassing', hbarred'⟩ : b'.passing = [] ∧ b'.barred = [] :=
    Block.nothing_picked (by rw [picked, hdispatcher'])
  have hinHand : b'.inHand = b.inHand := by
    rw [inHand, hworkers, hpassing', inHand, hpassing, List.map_append, List.append_assoc]
    rfl
  constructor
  · rw [hslots]
    exact hd.slots
  · have hholders := hd.holders
    rw [hpassing] at hholders
    rw [hslots, hworkers, hpassing', List.map_append, List.map_nil, List.append_nil]
    exact hholders
  · rw [hslots]
    exact hd.bounded
  · rw [hslots, hbarred', ← hbarred]
    exact hd.waiting
  · exact fun hne => absurd hbarred' hne
  · rw [hqueue', hbarred', ← hbarred]
    exact hd.order
  · rw [hinHand]
    exact hd.hands
  · rw [hinHand]
    exact hd.single
  · exact hd.called

/-- The dispatcher that sees the end of the queue, or of the last worker, keeps slots and events in
order. -/
theorem closes (hd : b.Dispatched limit events) (hnone : b.picked = []) (hnone' : b'.picked = [])
    (hqueue' : b'.queue = b.queue) (hslots : b'.slots = b.slots)
    (hworkers : b'.workers = b.workers) : b'.Dispatched limit events := by
  obtain ⟨hpassing, hbarred⟩ := Block.nothing_picked hnone
  obtain ⟨hpassing', hbarred'⟩ := Block.nothing_picked hnone'
  have hinHand : b'.inHand = b.inHand := by
    rw [inHand, hworkers, hpassing', inHand, hpassing]
  constructor
  · rw [hslots]
    exact hd.slots
  · rw [hslots, hworkers, hpassing', ← hpassing]
    exact hd.holders
  · rw [hslots]
    exact hd.bounded
  · rw [hslots, hbarred', ← hbarred]
    exact hd.waiting
  · exact fun hne => absurd hbarred' hne
  · rw [hqueue', hbarred', ← hbarred]
    exact hd.order
  · rw [hinHand]
    exact hd.hands
  · rw [hinHand]
    exact hd.single
  · exact hd.called

/-- Every turn keeps slots and events in order. -/
theorem turn (hd : b.Dispatched limit events) (hb : b.Wired) {new : List Event}
    (h : b.Turn new b') : b'.Dispatched limit (events ++ new) := by
  cases h with
  | idle hsame hqueue =>
    exact hd.of_sameHands hsame rfl rfl rfl (by rw [hqueue]; exact (List.append_nil _).symm)
  | enters item hsame hqueue =>
    exact hd.of_sameHands hsame rfl rfl rfl (by rw [hqueue, List.map_append]; rfl)
  | goesOn tally hk hid hnew => exact hd.goesOn hb tally hk hid hnew
  | ends tally hk => exact hd.ends hb tally hk _
  | takes hdispatcher hqueue hdispatcher' hqueue' hslots hworkers =>
    exact hd.takes hb hdispatcher hqueue hdispatcher' hqueue' hslots hworkers
  | starts hdispatcher hk hdispatcher' hqueue' hslots hworkers =>
    rw [List.append_nil]
    exact hd.starts hdispatcher hk hdispatcher' hqueue' hslots hworkers
  | closes hdispatcher hdispatcher' hqueue' hslots hworkers =>
    rw [List.append_nil]
    refine hd.closes ?_ ?_ hqueue' hslots hworkers
    · rcases hdispatcher with hdispatcher | hdispatcher
      all_goals rw [picked, hdispatcher]
    · rcases hdispatcher' with hdispatcher' | hdispatcher'
      all_goals rw [picked, hdispatcher']

/-- With one slot, the items that were handed over are those that have ended and that of the
worker. -/
theorem handedOver_of_alone (hd : b.Dispatched 1 events) {k : ℕ} {w : Worker (ℕ × ι) (ℕ × κ)}
    (hk : b.worker? k = some w) :
    Event.handedOver events = Event.ended events ++ [w.held.id] := by
  obtain ⟨hworkers, hpassing⟩ := hd.alone hk
  rw [hd.single rfl, Block.inHand, hworkers, hpassing]
  rfl

end Block.Dispatched

end Blocks

/-! ## Runs -/

/-- Where something stands that was noted at one time or the other. -/
theorem split_append {α : Type} {events new before after : List α} {e : α}
    (h : events ++ new = before ++ e :: after) :
    (∃ after', events = before ++ e :: after') ∨
      ∃ between, before = events ++ between ∧ new = between ++ e :: after := by
  rcases List.append_eq_append_iff.mp h with ⟨between, hbefore, hnew⟩ | ⟨rest, hevents, hrest⟩
  · exact .inr ⟨between, hbefore, hnew⟩
  · cases rest with
    | nil => exact .inr ⟨[], by simpa using hevents.symm, hrest.symm⟩
    | cons f rest =>
      obtain ⟨rfl, -⟩ := List.cons.inj hrest
      exact .inl ⟨rest, hevents⟩

/-- The dispatcher puts nothing into the queue, and ends no worker. -/
theorem Block.stepDispatcher_keeps (b : Block ι κ) :
    b.stepDispatcher.queue.length ≤ b.queue.length ∧
      b.workers.map Prod.fst ⊆ b.stepDispatcher.workers.map Prod.fst := by
  rcases b.stepDispatcher_cases with hstep | ⟨item, rest, line, granted, -, hqueue, hstep⟩ |
    ⟨-, -, -, hstep⟩ | ⟨item, k, -, -, hstep⟩ | ⟨-, -, hstep⟩
  case inr.inl =>
    rw [hstep, hqueue]
    exact ⟨Nat.le_succ _, List.Subset.refl _⟩
  case inr.inr.inr.inl =>
    rw [hstep, List.map_append]
    exact ⟨le_refl _, List.subset_append_left _ _⟩
  all_goals
    rw [hstep]
    exact ⟨le_refl _, List.Subset.refl _⟩

/-- A turn with a call is the turn of a worker that goes on with its item. -/
theorem Block.Turn.calls {b b' : Block (ℕ × ι) (ℕ × κ)} {new : List Event} (h : b.Turn new b')
    {i : ℕ} (hi : .calls i ∈ new) :
    new = [.calls i] ∧ ∃ k w, b.worker? k = some w ∧ w.held.id = i := by
  have hhanding (b b' : Block (ℕ × ι) (ℕ × κ)) : .calls i ∉ b.handing b' := by
    simp [Block.handing]
  cases h with
  | idle | starts | closes => cases hi
  | enters item => simp at hi
  | ends tally hk =>
    rcases List.mem_cons.mp hi with hi | hi
    · cases hi
    · exact absurd hi (hhanding _ _)
  | takes => exact absurd hi (hhanding _ _)
  | goesOn tally hk hid hnew =>
    rcases hnew with rfl | rfl
    · cases hi
    · obtain rfl : i = _ := by simpa using hi
      exact ⟨rfl, _, _, hk, rfl⟩

namespace Yard

/-- A yard and the events that were noted of it fit together. -/
structure Dispatching (limit : ℕ) (y : Yard ι κ ω) (events : List Event) : Prop where
  wired : y.Wired
  block : y.block.Dispatched limit events
  /-- A post whose item has got into the queue has ended. -/
  inside : ∀ i ∈ Event.entered events, ∃ outcome, y.posts[i]? = some (.done outcome)
  nodup : (Event.entered events).Nodup
  /-- With one slot, all items that have entered before an item have ended, in their order, when a
  worker begins a call for it. -/
  turns : limit = 1 → ∀ before i after, events = before ++ .calls i :: after →
    ∃ later, Event.entered before = Event.ended before ++ i :: later
  /-- With one slot, the calls are in the order in which their items have entered. -/
  sorted : limit = 1 →
    (Event.called events).Pairwise fun i j => i = j ∨ [i, j].Sublist (Event.entered events)

variable {limit : ℕ} {h : Handler ι κ ω} {y : Yard ι κ ω} {events : List Event}

/-- A post that has ended stays so. -/
theorem move_posts_done {i : ℕ} {outcome : Outcome Unit} (hi : y.posts[i]? = some (.done outcome))
    (m : Move ι) : (y.move h m).posts[i]? = some (.done outcome) := by
  have hlt : i < y.posts.length := (List.getElem?_eq_some_iff.mp hi).1
  cases m with
  | post | postAsync => exact (List.getElem?_append_left hlt).trans hi
  | poster j now =>
    show (y.stepPoster h j now).posts[i]? = _
    by_cases hij : i = j
    · subst hij
      rcases y.stepPoster_cases h i now with hstep | ⟨p, hp, -, hstep⟩ | ⟨item, hp, -, hstep⟩
      · rw [hstep]
        exact hi
      · obtain rfl : p = .done outcome := Option.some.inj (hp.symm.trans hi)
        rw [hstep]
        exact List.getElem?_set_self hlt
      · exact nomatch hp.symm.trans hi
    · rw [(y.stepPoster_frame h j now).1 i hij]
      exact hi
  | holds j =>
    show (y.hold j).posts[i]? = _
    rcases y.hold_cases j with hstep | ⟨hstep, -⟩
    · rw [hstep]
      exact hi
    · rw [hstep]
      exact hi
  | dispatcher =>
    show y.stepDispatcher.posts[i]? = _
    rcases y.stepDispatcher_cases with hstep | ⟨hstep, -⟩
    · rw [hstep]
      exact hi
    · rw [hstep]
      exact hi
  | overruns k now =>
    show (y.overrun h k now).posts[i]? = _
    rcases y.overrun_cases h k now with hstep | ⟨v, world, -, hstep⟩
    · rw [hstep]
      exact hi
    · rw [hstep]
      exact hi
  | worker | drain | shutdown | signals => exact hi

/-! ### What a move may add -/

/-- Only calls are noted as such. -/
theorem eq_calls_of_mem {y' : Yard ι κ ω} {m : Move ι} {e : Event}
    (he : e ∈ y.workerCalls m y') : ∃ i, e = .calls i := by
  unfold workerCalls at he
  split at he
  · obtain ⟨i, -, rfl⟩ := List.mem_map.mp he
    exact ⟨i, rfl⟩
  · obtain ⟨i, -, rfl⟩ := List.mem_map.mp he
    exact ⟨i, rfl⟩
  · cases he

/-- What gets into the queue with a move is noted, and nothing else is noted as such. -/
theorem entered_noted (y : Yard ι κ ω) (m : Move ι) (y' : Yard ι κ ω) :
    Event.entered (y.noted m y') =
      (y'.block.queue.drop y.block.queue.length).map (·.item.1) := by
  have hcalls : Event.entered (y.workerCalls m y') = [] := by
    refine List.filterMap_eq_nil_iff.mpr fun e he => ?_
    obtain ⟨i, rfl⟩ := eq_calls_of_mem he
    rfl
  have hendings : Event.entered (y.block.endings y'.block) = [] := by
    refine List.filterMap_eq_nil_iff.mpr fun e he => ?_
    obtain ⟨x, -, rfl⟩ := List.mem_map.mp he
    rfl
  have hhanding : Event.entered (y.block.handing y'.block) = [] := (Event.map_handed _).1
  rw [noted, Block.noted, Event.entered_append, Event.entered_append, Event.entered_append, hcalls,
    hendings, hhanding, List.append_nil, List.append_nil, List.nil_append, Event.entered,
    List.filterMap_map, ← List.filterMap_eq_map]
  rfl

/-- With a move at most one item gets into the queue, and its post ends with that. -/
theorem Wired.entered_cases (hy : y.Wired) (h : Handler ι κ ω) (m : Move ι) :
    Event.entered (y.noted m (y.move h m)) = [] ∨
      ∃ i p, Event.entered (y.noted m (y.move h m)) = [i] ∧ y.posts[i]? = some p ∧
        p.answer? = none ∧ (y.move h m).posts[i]? = some (.done (.ok ())) := by
  rw [entered_noted]
  have hnone {y' : Yard ι κ ω} (hqueue : y'.block.queue.length ≤ y.block.queue.length) :
      (y'.block.queue.drop y.block.queue.length).map (·.item.1) = [] := by
    rw [List.drop_eq_nil_of_le hqueue, List.map_nil]
  cases m with
  | poster i now =>
    obtain ⟨-, hqueue | ⟨p, item, hp, hready, hposts, hqueue⟩⟩ := y.stepPoster_hands h i now
    · exact .inl (hnone (le_of_eq (congrArg List.length hqueue)))
    · have hof := hy.posts i p hp
      have hlt : i < y.posts.length := (List.getElem?_eq_some_iff.mp hp).1
      refine .inr ⟨i, p, ?_, hp, ?_, ?_⟩
      · show ((y.stepPoster h i now).block.queue.drop _).map _ = _
        rw [hqueue, List.drop_left]
        rcases hready with rfl | ⟨ticket, rfl⟩
        · exact congrArg (fun j => [j]) hof
        · exact congrArg (fun j => [j]) hof
      · rcases hready with rfl | ⟨ticket, rfl⟩
        · rfl
        · rfl
      · show (y.stepPoster h i now).posts[i]? = _
        rw [hposts]
        exact List.getElem?_set_self hlt
  | holds i =>
    refine .inl (hnone ?_)
    show (y.hold i).block.queue.length ≤ _
    rcases y.hold_cases i with hstep | ⟨hstep, -⟩
    · rw [hstep]
    · rw [hstep]
  | dispatcher =>
    refine .inl (hnone ?_)
    show y.stepDispatcher.block.queue.length ≤ _
    rcases y.stepDispatcher_cases with hstep | ⟨hstep, -⟩
    · rw [hstep]
    · rw [hstep]
      exact y.block.stepDispatcher_keeps.1
  | worker k now =>
    refine .inl (hnone (le_of_eq (congrArg List.length ?_)))
    show (y.block.stepWorker (audited h) y.metrics k now y.world).1.queue = _
    rcases Block.stepWorker_cases h y.block y.metrics k now y.world with
      hstep | ⟨tally, ⟨v, -, hstep⟩ | hstep⟩
    all_goals
      rw [hstep]
      try rfl
  | overruns k now =>
    refine .inl (hnone (le_of_eq (congrArg List.length ?_)))
    show (y.overrun h k now).block.queue = _
    rcases y.overrun_cases h k now with hstep | ⟨v, world, -, hstep⟩
    · rw [hstep]
    · rw [hstep]
      rfl
  | post | postAsync | drain | shutdown | signals => exact .inl (hnone (le_refl _))

/-- No worker ends with a move that is not the turn of a worker. -/
theorem keys_kept (h : Handler ι κ ω) (y : Yard ι κ ω) {m : Move ι}
    (hm : ∀ k now, m ≠ .worker k now) :
    y.block.workers.map Prod.fst ⊆ (y.move h m).block.workers.map Prod.fst := by
  have hsame {b : Block (ℕ × ι) (ℕ × κ)} (hb : y.block.SameHands b) :
      y.block.workers.map Prod.fst ⊆ b.workers.map Prod.fst := by
    rw [hb.workers]
    exact List.Subset.refl _
  cases m with
  | poster i now => exact hsame (y.stepPoster_hands h i now).1
  | holds i =>
    refine hsame ?_
    show y.block.SameHands (y.hold i).block
    rcases y.hold_cases i with hstep | ⟨hstep, -⟩
    · rw [hstep]
      exact ⟨rfl, rfl, rfl⟩
    · rw [hstep]
      exact ⟨rfl, rfl, rfl⟩
  | dispatcher =>
    show _ ⊆ y.stepDispatcher.block.workers.map Prod.fst
    rcases y.stepDispatcher_cases with hstep | ⟨hstep, -⟩
    · rw [hstep]
      exact List.Subset.refl _
    · rw [hstep]
      exact y.block.stepDispatcher_keeps.2
  | worker k now => exact absurd rfl (hm k now)
  | overruns k now =>
    show _ ⊆ (y.overrun h k now).block.workers.map Prod.fst
    rcases y.overrun_cases h k now with hstep | ⟨v, world, -, hstep⟩
    · rw [hstep]
      exact List.Subset.refl _
    · rw [hstep, Block.keys_setWorker]
      exact List.Subset.refl _
  | post | postAsync | drain | shutdown | signals => exact List.Subset.refl _

/-- The item of a worker is lost only if a call for it has crashed. -/
theorem Wired.crashes_of_lost (hy : y.Wired) {m : Move ι} {i : ℕ}
    (hi : .ends i .lost ∈ y.noted m (y.move h m)) :
    ∃ k now w, m = .worker k now ∧ y.block.worker? k = some w ∧ w.held.id = i ∧
      w.Crashes h now y.world.1 := by
  have hending : .ends i .lost ∈ y.block.endings (y.move h m).block := by
    -- Neither calls nor entries nor handovers are ends of workers.
    rcases List.mem_append.mp hi with hcall | hnoted
    · obtain ⟨j, hj⟩ := eq_calls_of_mem hcall
      cases hj
    · rcases List.mem_append.mp hnoted with hnoted | hhanding
      · rcases List.mem_append.mp hnoted with hentry | hending
        · obtain ⟨x, -, hx⟩ := List.mem_map.mp hentry
          cases hx
        · exact hending
      · obtain ⟨x, -, hx⟩ := List.mem_map.mp hhanding
        cases hx
  have hgone : ¬ y.block.workers.map Prod.fst ⊆ (y.move h m).block.workers.map Prod.fst :=
    fun hkeys => by
      rw [Block.endings_eq_nil hkeys] at hending
      cases hending
  obtain ⟨k, now, rfl⟩ : ∃ k now, m = .worker k now := by
    by_contra hm
    exact hgone (y.keys_kept h fun k now heq => hm ⟨k, now, heq⟩)
  have hblock : (y.move h (.worker k now)).block =
      (y.block.stepWorker (audited h) y.metrics k now y.world).1 := rfl
  rw [hblock] at hending hgone
  cases hk : y.block.worker? k with
  | none =>
    refine absurd ?_ hgone
    unfold Block.stepWorker
    simp only [hk]
    exact List.Subset.refl _
  | some w =>
    refine ⟨k, now, w, rfl, hk, ?_⟩
    rcases Block.stepWorker_hands h y.metrics hk now y.world with
      ⟨tally, v, hr, -, -⟩ | ⟨tally, hr, -, hlost⟩
    · rw [hr, Block.keys_setWorker] at hgone
      exact absurd (List.Subset.refl _) hgone
    · rw [hr, Block.endings_endWorker hy.block hk, List.mem_singleton, Event.ends.injEq] at hending
      exact ⟨hending.1.symm, hlost hending.2.symm⟩

/-! ### Every move -/

/-- Every move keeps a yard and its events in order. -/
theorem Dispatching.move (hy : y.Dispatching limit events) (m : Move ι) :
    (y.move h m).Dispatching limit (events ++ y.noted m (y.move h m)) := by
  have hturn := hy.wired.turn h m
  refine ⟨hy.wired.move m, hy.block.turn hy.wired.block hturn, ?_, ?_, ?_, ?_⟩
  · intro i hi
    rw [Event.entered_append, List.mem_append] at hi
    rcases hi with hi | hi
    · obtain ⟨outcome, hdone⟩ := hy.inside i hi
      exact ⟨outcome, move_posts_done hdone m⟩
    · rcases hy.wired.entered_cases h m with hnone | ⟨j, p, hentered, -, -, hdone⟩
      · rw [hnone] at hi
        cases hi
      · rw [hentered] at hi
        obtain rfl := List.mem_singleton.mp hi
        exact ⟨_, hdone⟩
  · rw [Event.entered_append]
    rcases hy.wired.entered_cases h m with hnone | ⟨j, p, hentered, hp, hanswer, -⟩
    · rw [hnone, List.append_nil]
      exact hy.nodup
    · -- An item gets into the queue only once, since its post has ended then.
      have hnew : j ∉ Event.entered events := fun hmem => by
        obtain ⟨outcome, hdone⟩ := hy.inside j hmem
        obtain rfl : p = .done outcome := Option.some.inj (hp.symm.trans hdone)
        cases hanswer
      rw [hentered]
      exact List.nodup_append_comm.mp (List.nodup_cons.mpr ⟨hnew, hy.nodup⟩)
  · rintro rfl before i after hsplit
    rcases split_append hsplit with ⟨after', hevents⟩ | ⟨between, hbefore, hnew⟩
    · exact hy.turns rfl before i after' hevents
    · have hmem : .calls i ∈ y.noted m (y.move h m) := by
        rw [hnew]
        exact List.mem_append_right _ List.mem_cons_self
      obtain ⟨hone, k, w, hk, rfl⟩ := hturn.calls hmem
      rw [hone] at hnew
      obtain ⟨rfl, -⟩ : between = [] ∧ after = [] := by
        have hlength := congrArg List.length hnew
        simp only [List.length_append, List.length_cons, List.length_nil] at hlength
        exact ⟨List.eq_nil_of_length_eq_zero (by omega), List.eq_nil_of_length_eq_zero (by omega)⟩
      rw [List.append_nil] at hbefore
      subst hbefore
      have horder := hy.block.order
      rw [hy.block.handedOver_of_alone hk, List.append_assoc, List.append_assoc] at horder
      exact ⟨_, horder⟩
  · rintro rfl
    rw [Event.called_append, Event.entered_append]
    have hsorted : (Event.called events).Pairwise fun i j => i = j ∨
        [i, j].Sublist (Event.entered events ++ Event.entered (y.noted m (y.move h m))) :=
      (hy.sorted rfl).imp fun hij => hij.imp id fun hsub =>
        hsub.trans (List.sublist_append_left _ _)
    by_cases hcall : ∃ i, .calls i ∈ y.noted m (y.move h m)
    · obtain ⟨i, hmem⟩ := hcall
      obtain ⟨hone, k, w, hk, rfl⟩ := hturn.calls hmem
      have hcalled : Event.called (y.noted m (y.move h m)) = [w.held.id] := by
        rw [hone]
        rfl
      rw [hcalled]
      refine List.pairwise_append.mpr ⟨hsorted, List.pairwise_singleton _ _, fun j hj i hi => ?_⟩
      obtain rfl := List.mem_singleton.mp hi
      -- Whatever was called was handed over, and all of that but this item has ended.
      have hhanded := hy.block.handedOver_of_alone hk
      have hmem := hy.block.called hj
      rw [hhanded] at hmem
      rcases List.mem_append.mp hmem with hended | hself
      · refine .inr (List.Sublist.trans ?_ (List.sublist_append_left _ _))
        rw [hy.block.order, hhanded, List.append_assoc]
        refine List.Sublist.trans ?_ (List.sublist_append_left _ _)
        exact (List.singleton_sublist.mpr hended).append (List.Sublist.refl [w.held.id])
      · exact .inl (List.mem_singleton.mp hself)
    · have hcalled : Event.called (y.noted m (y.move h m)) = [] := by
        refine List.filterMap_eq_nil_iff.mpr fun e he => ?_
        cases e with
        | calls i => exact absurd ⟨i, he⟩ hcall
        | enters | handed | ends => rfl
      rw [hcalled, List.append_nil]
      exact hsorted

/-! ### Runs of a block -/

/-- A new block has all of its slots, and nothing has been noted of it. -/
theorem Dispatching.new {name : String} {config : Config.Retrying} {b : Block (ℕ × ι) (ℕ × κ)}
    (hb : Block.new name config = .ok b) (world : ω) :
    (new b world).Dispatching (max 1 config.maxConcurrency) [] := by
  have hwired := (Kept.new hb world).wired
  obtain ⟨schedule, -, rfl⟩ := Block.new_eq hb
  refine ⟨hwired, ⟨max_comm _ _, List.Perm.refl _, Nat.zero_le _, rfl, nofun, rfl,
    List.Perm.refl _, fun _ => rfl, List.Subset.refl _⟩, nofun, List.nodup_nil, ?_, fun _ => .nil⟩
  exact fun _ before i after hsplit => by simp at hsplit

/-- Any number of moves keeps a yard and its events in order. -/
theorem Dispatching.play (hy : y.Dispatching limit []) (ms : List (Move ι)) :
    (y.play h ms).Dispatching limit (chronicle noted h y ms) := by
  induction ms using List.reverseRecOn with
  | nil => exact hy
  | append_singleton ms m ih =>
    rw [play_concat, chronicle_concat]
    exact ih.move m

/-- Where a call has crashed by which an item was lost. -/
theorem crashes_of_lost (hy : y.Dispatching limit []) (ms : List (Move ι)) {i : ℕ}
    (hi : .ends i .lost ∈ chronicle noted h y ms) :
    ∃ before k now after w, ms = before ++ .worker k now :: after ∧
      (y.play h before).block.worker? k = some w ∧ w.held.id = i ∧
        w.Crashes h now (y.play h before).world.1 := by
  induction ms using List.reverseRecOn with
  | nil => cases hi
  | append_singleton ms m ih =>
    rw [chronicle_concat] at hi
    rcases List.mem_append.mp hi with hi | hi
    · obtain ⟨before, k, now, after, w, rfl, hw⟩ := ih hi
      exact ⟨before, k, now, after ++ [m], w, by simp, hw⟩
    · obtain ⟨k, now, w, rfl, hw⟩ := (hy.play ms).wired.crashes_of_lost hi
      exact ⟨ms, k, now, [], w, rfl, hw⟩

/-- Everyone who holds a slot is someone else. -/
theorem Dispatching.nodup_holding (hy : y.Dispatching limit events) :
    y.block.slots.holding.Nodup := by
  refine hy.block.holders.nodup_iff.mpr ?_
  rcases y.block.picked_cases with
    ⟨-, hpassing, -⟩ | ⟨item, k, hdispatcher, -, ⟨-, hpassing, -⟩ | ⟨-, hpassing, -⟩⟩
  · rw [hpassing, List.map_nil, List.append_nil]
    exact hy.wired.block.keys
  · rw [hpassing]
    have hnew := (hy.wired.block.acquiring item k hdispatcher).2
    exact List.nodup_append_comm.mp (List.nodup_cons.mpr ⟨hnew, hy.wired.block.keys⟩)
  · rw [hpassing, List.map_nil, List.append_nil]
    exact hy.wired.block.keys

/-- The slots that are free and the items in hand are as many as there are slots. -/
theorem Dispatching.free_add (hy : y.Dispatching limit events) :
    y.block.slots.free + y.block.inHand.length = limit := by
  have hlength := hy.block.holders.length_eq
  have hbounded := hy.block.bounded
  have hslots := hy.block.slots
  rw [List.length_append, List.length_map, List.length_map] at hlength
  rw [Bulkhead.free, Block.inHand, List.length_append, List.length_map, List.length_map]
  omega

/-- A retry block hands over its items in the order in which they get into its queue, and never has
more of them in hand than there are slots, however its handler goes about them and whoever posts
them when. Every slot is free or taken for an item that was handed over and whose worker has not
come to its end, and no two of these share a slot. An item is lost only if a call for it has
crashed. With at most one slot, whenever a worker begins a call for an item, those that have got
into the queue before it, and no others, have come to their ends, in their order. So the calls are
in the order of the items. -/
theorem hands_over_in_order {name : String} {config : Config.Retrying}
    {b : Block (ℕ × ι) (ℕ × κ)} (hb : Block.new name config = .ok b) (h : Handler ι κ ω) (world : ω)
    (ms : List (Move ι)) :
    let y := (new b world).play h ms
    let events := chronicle noted h (new b world) ms
    let limit := max 1 config.maxConcurrency
    (y.block.slots.free + y.block.inHand.length = limit ∧ y.block.slots.holding.Nodup ∧
      (Event.handedOver events).Perm (Event.ended events ++ y.block.inHand)) ∧
      (Event.handedOver events <+: Event.entered events ∧ (Event.entered events).Nodup) ∧
        (∀ i, .ends i .lost ∈ events →
          ∃ before k now after w, ms = before ++ .worker k now :: after ∧
            ((new b world).play h before).block.worker? k = some w ∧ w.held.id = i ∧
              w.Crashes h now ((new b world).play h before).world.1) ∧
          (config.maxConcurrency ≤ 1 →
            (∀ before i after, events = before ++ .calls i :: after →
              ∃ later, Event.entered before = Event.ended before ++ i :: later) ∧
              (Event.called events).Pairwise fun i j =>
                i = j ∨ [i, j].Sublist (Event.entered events)) := by
  intro y events limit
  have hnew := Dispatching.new hb world
  have hy : y.Dispatching limit events := hnew.play ms
  refine ⟨⟨hy.free_add, hy.nodup_holding, hy.block.hands⟩, ⟨?_, hy.nodup⟩,
    fun i hi => crashes_of_lost hnew ms hi, fun hone => ?_⟩
  · rw [hy.block.order, List.append_assoc]
    exact List.prefix_append _ _
  · have hlimit : limit = 1 := max_eq_left hone
    exact ⟨hy.turns hlimit, hy.sorted hlimit⟩

/-- A handler whose calls end at once, each in the way that its item says. -/
def asSaid : Handler (Outcome Unit) (Outcome Unit) Unit where
  start x now world := ((x, now), world)
  finish call _ world := (call, world)

/-- Moves by which two items are posted to a block with one slot. The worker of the first one
crashes while the dispatcher waits with the second one. -/
def crashing : List (Move (Outcome Unit)) :=
  [.post (.error (.crash .tooManyPermits)), .poster 0 0, .post (.ok ()), .poster 1 0, .dispatcher,
    .dispatcher, .dispatcher, .worker 0 0, .worker 0 1, .dispatcher, .worker 1 2]

/-- A block with one slot loses an item to a crash, and hands the slot over for the next one. -/
theorem hands_over_after_crash :
    ∃ b : Block (ℕ × Outcome Unit) (ℕ × Outcome Unit),
      Block.new "orders" { maxConcurrency := 0, backoff := [] } = .ok b ∧
        let y := (new b ()).play asSaid crashing
        let events := chronicle noted asSaid (new b ()) crashing
        events = [.enters 0, .enters 1, .handed 0, .calls 0, .ends 0 .lost, .handed 1, .calls 1] ∧
          y.block.slots.free + y.block.inHand.length = 1 := by
  have hslots (b : Block (ℕ × Outcome Unit) (ℕ × Outcome Unit))
      (hb : Block.new "orders" { maxConcurrency := 0, backoff := [] } = .ok b) :=
    (hands_over_in_order hb asSaid () crashing).1.1
  exact ⟨_, rfl, by decide +kernel, hslots _ rfl⟩

end Yard

end Retry

end Tidemark
