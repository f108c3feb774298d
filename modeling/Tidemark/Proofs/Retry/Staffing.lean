import Tidemark.Proofs.Retry.Draining

/-!
# A closed block comes to rest

The numbers of the workers of a block, and that of the worker that its dispatcher is about to start,
fit its slots (`Block.Staffed`), whatever is posted and however the items are handled. So somebody
goes on as long as a closed block has something left to do (`Block.Staffed.busy_of_undrained`), and
does less and less of it.
-/

namespace Tidemark.Retry

variable {ι κ ω : Type}

/-! ## Posts without a first attempt -/

/-- What someone does with a turn who posts an item for the workers. -/
inductive Posting.Goes (b : Block ι κ) : Posting ι κ → Posting ι κ → Block ι κ → Prop where
  /-- The item is sent to the queue. -/
  | sends (item : Item ι) : Goes b (.sending item) (send b item).1 (send b item).2
  /-- The item gets the place in the queue that was kept for it. -/
  | enters {item : Item ι} {ticket : ℕ} (hgranted : ticket ∈ b.granted) :
    Goes b (.waiting item ticket) (.done (.ok ()))
      ({ b with granted := b.granted.filter (· ≠ ticket) }.push item)
  /-- No place in the queue is kept for the item so far. -/
  | waits {item : Item ι} {ticket : ℕ} (hgranted : ticket ∉ b.granted) :
    Goes b (.waiting item ticket) (.waiting item ticket) b
  /-- The post has ended. -/
  | ended (outcome outcome' : Outcome Unit) : Goes b (.done outcome) (.done outcome') b

/-- What is left to do for someone who waits for a place in the queue. -/
def Posting.load (limit : ℕ) : Posting ι κ → ℕ
  | .waiting item _ => item.effort limit + 1
  | _ => 0

/-- Someone who withdraws gives up the place in the line, or passes on the one that was kept. -/
def Block.withdraw (b : Block ι κ) (ticket : ℕ) : Block ι κ :=
  if ticket ∈ b.granted then
    { b with granted := b.granted.filter (· ≠ ticket) }.grant
  else { b with line := b.line.filter (· ≠ ticket) }

section Lines

variable {b b' : Block ι κ} {p q : Posting ι κ} {tickets others : List ℕ}

/-- The order of those who wait does not matter to the line. -/
theorem Block.Lined.perm (hb : b.Lined tickets) (h : tickets.Perm others) : b.Lined others :=
  ⟨hb.tickets.trans h, hb.nodup, hb.below, hb.full, hb.capacity⟩

/-- Whatever leaves the queue and its line alone keeps the line in order. -/
theorem Block.Lined.of_same (hb : b.Lined tickets) (hgranted : b'.granted = b.granted)
    (hline : b'.line = b.line) (hnext : b'.nextTicket = b.nextTicket) (hqueue : b'.queue = b.queue)
    (hcapacity : b'.capacity = b.capacity) : b'.Lined tickets where
  tickets := by rw [hgranted, hline]; exact hb.tickets
  nodup := by rw [hgranted, hline]; exact hb.nodup
  below := by rw [hgranted, hline, hnext]; exact hb.below
  full := by rw [hgranted, hline, hqueue, hcapacity]; exact hb.full
  capacity := hcapacity ▸ hb.capacity

/-- Whoever posts an item for the workers switches nothing. -/
theorem Posting.Goes.unswitched (h : p.Goes b q b') : b.Unswitched b' := by
  cases h with
  | sends item => exact (send_spares b item).toUnswitched
  | enters | waits | ended => exact ⟨rfl, rfl, rfl⟩

/-- Whoever posts an item for the workers keeps the line in order. -/
theorem Posting.Goes.lined (h : p.Goes b q b') (hb : b.Lined (p.tickets ++ others)) :
    b'.Lined (q.tickets ++ others) := by
  cases h with
  | sends item => exact hb.send item
  | @enters item ticket hgranted => exact hb.enters hgranted item
  | waits | ended => exact hb

/-- Whoever withdraws leaves the line in order. -/
theorem Block.Lined.withdraw {ticket : ℕ} (hb : b.Lined (ticket :: others)) :
    (b.withdraw ticket).Lined others := by
  have hkept : ∀ l : List ℕ, l.Nodup → l.filter (· ≠ ticket) = l.erase ticket := fun l hl =>
    (hl.erase_eq_filter ticket).symm ▸ List.filter_congr fun x _ => by
      by_cases hx : x = ticket <;> simp [hx]
  obtain ⟨hgrantedNodup, hlineNodup, -⟩ := List.nodup_append.mp hb.nodup
  unfold Block.withdraw
  split_ifs with hgranted
  · -- The place passes to the first in the line, if there is one.
    have hleft : (b.granted.erase ticket ++ b.line).Perm others :=
      (((List.perm_cons_erase hgranted).append_right b.line).symm.trans hb.tickets).cons_inv
    have hnodup : (b.granted.erase ticket ++ b.line).Nodup :=
      hb.nodup.sublist (List.erase_sublist.append_right _)
    have hbelow : ∀ t ∈ b.granted.erase ticket ++ b.line, t < b.nextTicket := fun t ht =>
      hb.below t ((List.erase_sublist.append_right b.line).subset ht)
    rw [hkept _ hgrantedNodup]
    unfold Block.grant
    cases hline : b.line with
    | nil =>
      rw [hline] at hleft hnodup hbelow
      exact ⟨hleft, hnodup, hbelow, fun hne => absurd rfl hne, hb.capacity⟩
    | cons t rest =>
      have hmoved : b.granted.erase ticket ++ [t] ++ rest = b.granted.erase ticket ++ b.line := by
        rw [hline, List.append_assoc]
        rfl
      have hfull := hb.full (by rw [hline]; exact List.cons_ne_nil _ _)
      have hlength := List.length_erase_add_one hgranted
      refine ⟨hmoved ▸ hleft, hmoved ▸ hnodup, hmoved ▸ hbelow, fun _ => ?_, hb.capacity⟩
      show b.capacity ≤ b.queue.length + (b.granted.erase ticket ++ [t]).length
      rw [List.length_append, List.length_singleton]
      omega
  · have hline : ticket ∈ b.line :=
      (List.mem_append.mp (hb.tickets.mem_iff.mpr List.mem_cons_self)).resolve_left hgranted
    have hperm : (b.granted ++ b.line).Perm (ticket :: (b.granted ++ b.line.erase ticket)) :=
      ((List.perm_cons_erase hline).append_left _).trans List.perm_middle
    rw [hkept _ hlineNodup]
    refine ⟨(hperm.symm.trans hb.tickets).cons_inv, (List.nodup_cons.mp (hperm.nodup hb.nodup)).2,
      fun t ht => hb.below t (hperm.mem_iff.mpr (List.mem_cons_of_mem _ ht)), fun hne => ?_,
      hb.capacity⟩
    exact hb.full (List.ne_nil_of_mem hline)

/-- Once a block is closed, whoever gets an item into the queue leaves less to do, and nobody else
changes anything or begins to wait. -/
theorem Posting.Goes.load_le (h : p.Goes b q b') (hclosed : b.isOpen = false) :
    b' = b ∧ q.tickets = p.tickets ∧ q.load b.maximumAttempts = p.load b.maximumAttempts ∧
        (∀ ticket ∈ p.tickets, ticket ∉ b.granted) ∨
      q.load b.maximumAttempts + b'.effort < p.load b.maximumAttempts + b.effort := by
  cases h with
  | sends item =>
    rcases send_cases b item with ⟨hsend, -⟩ | ⟨-, hopen⟩ | ⟨-, hopen, -⟩
    · rw [hsend]
      exact .inl ⟨rfl, rfl, rfl, nofun⟩
    all_goals
      rw [hclosed] at hopen
      cases hopen
  | @enters item ticket hgranted =>
    right
    have hsame : ({ b with granted := b.granted.filter (· ≠ ticket) } : Block ι κ).effort =
        b.effort := rfl
    rw [Block.effort_push, hsame]
    simp only [load]
    omega
  | waits hgranted => exact .inl ⟨rfl, rfl, rfl, fun t ht => List.mem_singleton.mp ht ▸ hgranted⟩
  | ended => exact .inl ⟨rfl, rfl, rfl, nofun⟩

end Lines

/-! ## Workers and slots -/

/-- Every worker holds a slot. One that is yet to start may wait for a slot, but not while all are
free. -/
structure Allots (slots : Bulkhead ℕ) (started expected : List ℕ) : Prop where
  members : (slots.holding ++ slots.waiting).Perm (started ++ expected)
  waiting : slots.waiting ⊆ expected
  busy : slots.waiting ≠ [] → slots.holding ≠ []
  limit : 0 < slots.limit

namespace Allots

variable {slots : Bulkhead ℕ} {started expected : List ℕ} {k : ℕ}

/-- Somebody asks for a slot. -/
theorem acquire (h : Allots slots started []) (k : ℕ) : Allots (slots.acquire k) started [k] := by
  have hwaiting : slots.waiting = [] := List.subset_nil.mp h.waiting
  have hmembers : slots.holding.Perm started := by simpa [hwaiting] using h.members
  unfold Bulkhead.acquire
  split_ifs with hroom
  · refine ⟨?_, ?_, fun hne => absurd hwaiting hne, h.limit⟩
    · simpa [hwaiting] using hmembers.append_right [k]
    · simp [hwaiting]
  · refine ⟨?_, ?_, fun _ hnone => ?_, h.limit⟩
    · simpa [hwaiting] using hmembers.append_right [k]
    · simp [hwaiting]
    · -- There is a slot to be held.
      have hlimit := h.limit
      simp only [Bulkhead.hasRoom, decide_eq_true_eq, not_lt] at hroom
      rw [show slots.holding = [] from hnone, List.length_nil] at hroom
      omega

/-- Whoever has got a slot starts. -/
theorem starts (h : Allots slots started [k]) (hnodup : (started ++ [k]).Nodup)
    (hk : k ∈ slots.holding) : Allots slots (started ++ [k]) [] := by
  have hwaiting : slots.waiting = [] := by
    refine List.eq_nil_iff_forall_not_mem.mpr fun j hj => ?_
    obtain rfl := List.mem_singleton.mp (h.waiting hj)
    exact (List.nodup_append.mp (h.members.symm.nodup hnodup)).2.2 j hk j hj rfl
  exact ⟨by simpa using h.members, by simp [hwaiting], h.busy, h.limit⟩

/-- The slot of a worker that ends becomes free, or passes to the one that waits for it. -/
theorem release (h : Allots slots started expected) (hnodup : (started ++ expected).Nodup)
    (hk : k ∈ started) : Allots (slots.release k) (started.erase k) expected := by
  have hnot : k ∉ slots.waiting := fun hwaits =>
    (List.nodup_append.mp hnodup).2.2 k hk k (h.waiting hwaits) rfl
  have hholds : k ∈ slots.holding :=
    (List.mem_append.mp (h.members.mem_iff.mpr (List.mem_append_left _ hk))).resolve_right hnot
  have hleft : (slots.holding.erase k ++ slots.waiting).Perm (started.erase k ++ expected) := by
    have hbefore := (List.perm_cons_erase hholds).append_right slots.waiting
    have hafter := (List.perm_cons_erase hk).append_right expected
    exact (hbefore.symm.trans (h.members.trans hafter)).cons_inv
  unfold Bulkhead.release
  rw [if_pos hholds]
  rcases hwaiting : slots.waiting with _ | ⟨j, rest⟩
  case nil =>
    rw [hwaiting] at hleft
    dsimp only
    exact ⟨by simpa using hleft, List.nil_subset _, absurd rfl, h.limit⟩
  case cons =>
    rw [hwaiting] at hleft
    refine ⟨?_, fun i hi => h.waiting ?_, fun _ => by simp, h.limit⟩
    · simpa using hleft
    · rw [hwaiting]
      exact List.mem_cons_of_mem _ hi

/-- Where nobody has started, the one that is expected has got a slot. -/
theorem mem_holding (h : Allots slots [] [k]) : k ∈ slots.holding := by
  by_contra hnot
  have hwaits : k ∈ slots.waiting :=
    (List.mem_append.mp (h.members.mem_iff.mpr (List.mem_singleton_self k))).resolve_left hnot
  obtain ⟨j, rest, hholding⟩ := List.exists_cons_of_ne_nil (h.busy (List.ne_nil_of_mem hwaits))
  have hj : j ∈ slots.holding := by rw [hholding]; exact List.mem_cons_self
  obtain rfl := List.mem_singleton.mp (h.members.mem_iff.mp (List.mem_append_left _ hj))
  exact hnot hj

end Allots

/-- The number of the worker that the dispatcher is about to start. -/
def Dispatcher.expected : Dispatcher ι → List ℕ
  | .acquiring _ k => [k]
  | _ => []

/-- The numbers of the workers. -/
def Block.started (b : Block ι κ) : List ℕ := b.workers.map Prod.fst

/-- The workers of a block have numbers of their own that fit its slots. Once the dispatcher has
seen the end of the queue, nothing comes into it. -/
structure Block.Staffed (b : Block ι κ) : Prop where
  nodup : (b.started ++ b.dispatcher.expected).Nodup
  below : ∀ k ∈ b.started ++ b.dispatcher.expected, k < b.nextWorker
  slots : Allots b.slots b.started b.dispatcher.expected
  closed : b.dispatcher = .joining ∨ b.dispatcher = .done → b.queue = [] ∧ b.isSealed = true

section Staff

variable {b b' : Block ι κ} {p q : Posting ι κ}

/-- A new block is staffed, and nobody waits. -/
theorem Block.staffed_new {name : String} {config : Config.Retrying}
    (hb : Block.new name config = .ok b) : b.Staffed ∧ b.Lined [] := by
  obtain ⟨schedule, -, rfl⟩ := Block.new_eq hb
  have hslots : 0 < max config.maxConcurrency 1 := lt_of_lt_of_le Nat.one_pos (le_max_right _ _)
  have hcapacity : 0 < max config.queueCapacity 1 := lt_of_lt_of_le Nat.one_pos (le_max_right _ _)
  refine ⟨⟨List.nodup_nil, nofun, ⟨.refl _, List.nil_subset _, absurd rfl, hslots⟩, nofun⟩, ?_⟩
  exact ⟨.refl _, List.nodup_nil, nofun, absurd rfl, hcapacity⟩

/-- The workers of a staffed block have numbers of their own. -/
theorem Block.Staffed.keys (hb : b.Staffed) : (b.workers.map Prod.fst).Nodup :=
  (List.nodup_append.mp hb.nodup).1

/-- Whatever leaves the tasks of a block alone, and its queue once the dispatcher has seen the end
of it, keeps the block staffed. -/
theorem Block.Staffed.of_same (hb : b.Staffed) (hdispatcher : b'.dispatcher = b.dispatcher)
    (hworkers : b'.workers = b.workers) (hnext : b'.nextWorker = b.nextWorker)
    (hslots : b'.slots = b.slots)
    (hclosed : b.queue = [] → b.isSealed = true → b'.queue = [] ∧ b'.isSealed = true) :
    b'.Staffed := by
  have hstarted : b'.started = b.started := congrArg (List.map Prod.fst) hworkers
  constructor
  · rw [hstarted, hdispatcher]; exact hb.nodup
  · rw [hstarted, hdispatcher, hnext]; exact hb.below
  · rw [hstarted, hdispatcher, hslots]; exact hb.slots
  · rw [hdispatcher]
    exact fun hend => hclosed (hb.closed hend).1 (hb.closed hend).2

/-- Stopping a block keeps it staffed. -/
theorem Block.Staffed.stop (hb : b.Staffed) : b.stop.Staffed := by
  refine hb.of_same rfl rfl rfl rfl fun hqueue hsealed => ⟨hqueue, ?_⟩
  unfold isSealed at hsealed ⊢
  simp only [Bool.and_eq_true] at hsealed ⊢
  exact ⟨⟨rfl, hsealed.1.2⟩, hsealed.2⟩

/-- Whoever posts an item for the workers keeps the block staffed. -/
theorem Posting.Goes.staffed (h : p.Goes b q b') (hb : b.Staffed) : b'.Staffed := by
  cases h with
  | sends item =>
    rcases send_cases b item with ⟨hsend, -⟩ | ⟨hsend, hopen⟩ | ⟨hsend, hopen, -⟩
    · rw [hsend]
      exact hb
    all_goals
      rw [hsend]
      refine hb.of_same rfl rfl rfl rfl fun _ hsealed => ?_
      -- What is sealed is closed.
      rw [b.isOpen_of_isSealed hsealed] at hopen
      cases hopen
  | enters hgranted =>
    refine hb.of_same rfl rfl rfl rfl fun _ hsealed => ?_
    -- No place in a sealed queue is kept for anyone.
    simp only [Block.isSealed, Bool.and_eq_true, List.isEmpty_iff] at hsealed
    rw [hsealed.2] at hgranted
    cases hgranted
  | waits | ended => exact hb

/-- Whoever withdraws leaves the block staffed. -/
theorem Block.Staffed.withdraw (hb : b.Staffed) (ticket : ℕ) : (b.withdraw ticket).Staffed := by
  unfold Block.withdraw
  split_ifs with hgranted
  · obtain ⟨line, granted, hgrant⟩ :=
      Block.grant_eq { b with granted := b.granted.filter (· ≠ ticket) }
    rw [hgrant]
    refine hb.of_same rfl rfl rfl rfl fun _ hsealed => ?_
    simp only [Block.isSealed, Bool.and_eq_true, List.isEmpty_iff] at hsealed
    rw [hsealed.2] at hgranted
    cases hgranted
  · refine hb.of_same rfl rfl rfl rfl fun hqueue hsealed => ⟨hqueue, ?_⟩
    simp only [Block.isSealed, Bool.and_eq_true, List.isEmpty_iff] at hsealed ⊢
    exact ⟨⟨hsealed.1.1, by rw [hsealed.1.2]; rfl⟩, hsealed.2⟩

/-- The dispatcher keeps a block staffed. -/
theorem Block.Staffed.stepDispatcher (hb : b.Staffed) : b.stepDispatcher.Staffed := by
  obtain ⟨hnodup, hbelow, hslots, hclosed⟩ := hb
  rcases b.stepDispatcher_cases with hstep | ⟨item, rest, line, granted, hdispatcher, -, hstep⟩ |
    ⟨hdispatcher, hqueue, hsealed, hstep⟩ | ⟨item, k, hdispatcher, hk, hstep⟩ |
    ⟨hdispatcher, hempty, hstep⟩
  · rw [hstep]
    exact ⟨hnodup, hbelow, hslots, hclosed⟩
  all_goals
    rw [hdispatcher] at hnodup hbelow hslots
    rw [hstep]
  · -- The next worker has a number that no worker has had.
    simp only [Dispatcher.expected, List.append_nil] at hnodup hbelow hslots
    refine ⟨?_, fun j hj => ?_, hslots.acquire _, nofun⟩
    · exact List.nodup_append_comm.mp
        (List.nodup_cons.mpr ⟨fun hmem => lt_irrefl _ (hbelow _ hmem), hnodup⟩)
    · rcases List.mem_append.mp hj with hj | hj
      · exact Nat.lt_succ_of_lt (hbelow j hj)
      · exact List.mem_singleton.mp hj ▸ Nat.lt_succ_self _
  · exact ⟨hnodup, hbelow, hslots, fun _ => ⟨hqueue, hsealed⟩⟩
  · -- The worker has the number that the dispatcher has kept for it, and its slot.
    have hstarted : (b.workers ++ [(k, Worker.starting item)]).map Prod.fst ++ [] =
        b.started ++ [k] := by rw [List.map_append, List.append_nil]; rfl
    refine ⟨hstarted ▸ hnodup, hstarted ▸ hbelow, ?_, nofun⟩
    show Allots b.slots ((b.workers ++ [(k, Worker.starting item)]).map Prod.fst) []
    rw [List.append_nil] at hstarted
    rw [hstarted]
    exact hslots.starts hnodup hk
  · exact ⟨hnodup, hbelow, hslots, fun _ => hclosed (.inl hdispatcher)⟩

/-- The dispatcher does nothing where it is not ready. -/
theorem Block.stepDispatcher_eq (h : b.dispatcherWait ≠ .ready) : b.stepDispatcher = b := by
  rcases b.stepDispatcher_cases with hstep | ⟨item, rest, line, granted, hdispatcher, hqueue, -⟩ |
    ⟨hdispatcher, -, hsealed, -⟩ | ⟨item, k, hdispatcher, hk, -⟩ | ⟨hdispatcher, hempty, -⟩
  · exact hstep
  all_goals
    refine absurd ?_ h
    simp_all [dispatcherWait, Wait.for]

/-- A worker that has its turn keeps a block staffed. -/
theorem Block.Staffed.goOn (hb : b.Staffed) {k : ℕ} {w : Worker ι κ} (hk : b.worker? k = some w)
    (tally : Tally) (w' : Option (Worker ι κ)) : (b.goOn k tally w').Staffed := by
  cases w' with
  | some v =>
    have hstarted : (b.goOn k tally (some v)).started = b.started := Block.keys_setWorker _ k v
    constructor
    · rw [hstarted]; exact hb.nodup
    · rw [hstarted]; exact hb.below
    · rw [hstarted]; exact hb.slots
    · exact hb.closed
  | none =>
    obtain ⟨before, after, hworkers, -, hend⟩ := Block.workers_split hb.keys hk
    have hkeys := hb.keys
    have hmem : k ∈ b.started := by simp [started, hworkers]
    have hstarted : (b.goOn k tally none).started = b.started.erase k := by
      have hend : (b.goOn k tally none).workers = before ++ after := hend
      rw [hworkers, List.map_append, List.map_cons, List.nodup_append] at hkeys
      have hnot : k ∉ before.map Prod.fst := fun hk => hkeys.2.2 k hk k List.mem_cons_self rfl
      rw [started, hend, started, hworkers, List.map_append, List.map_append, List.map_cons,
        List.erase_append_right _ hnot, List.erase_cons_head]
    have hsub : (b.started.erase k ++ b.dispatcher.expected).Sublist
        (b.started ++ b.dispatcher.expected) := List.erase_sublist.append_right _
    constructor
    · rw [hstarted]; exact hb.nodup.sublist hsub
    · rw [hstarted]; exact fun j hj => hb.below j (hsub.subset hj)
    · rw [hstarted]; exact hb.slots.release hb.nodup hmem
    · exact hb.closed

/-- A worker that has its turn keeps the line in order. -/
theorem Block.Lined.goOn {tickets : List ℕ} (hb : b.Lined tickets) (k : ℕ) (tally : Tally)
    (w' : Option (Worker ι κ)) : (b.goOn k tally w').Lined tickets := by
  cases w' <;> exact hb.of_same rfl rfl rfl rfl rfl

/-- A worker that has not ended is ready sooner or later. -/
theorem Block.exists_worker_ready {b : Block ι κ} {k : ℕ} (h : (b.worker? k).isSome) :
    ∃ now, b.workerWait now k = .ready := by
  obtain ⟨w, hk⟩ := Option.isSome_iff_exists.mp h
  cases w with
  | starting item => exact ⟨0, by simp [workerWait, hk]⟩
  | resting item due => exact ⟨due, by simp [workerWait, hk, Wait.either, Wait.till]⟩
  | calling item call due => exact ⟨due, by simp [workerWait, hk, Wait.till]⟩

/-- As long as a closed block is not drained, its dispatcher is ready, there is a worker, or a place
in the queue is kept for someone. -/
theorem Block.Staffed.busy_of_undrained (hb : b.Staffed) {tickets : List ℕ}
    (hl : b.Lined tickets) (hclosed : b.isOpen = false) (hleft : b.isDrained = false) :
    b.dispatcherWait = .ready ∨ (∃ k, (b.worker? k).isSome) ∨ b.granted ≠ [] := by
  by_cases hgranted : b.granted = []
  case neg => exact .inr (.inr hgranted)
  by_cases hworkers : b.workers = []
  case neg =>
    obtain ⟨⟨k, w⟩, rest, hsplit⟩ := List.exists_cons_of_ne_nil hworkers
    refine .inr (.inl ⟨k, ?_⟩)
    rw [Block.worker?, hsplit, List.lookup_cons_self]
    rfl
  left
  cases hdispatcher : b.dispatcher with
  | receiving =>
    by_cases hqueue : b.queue = []
    · -- There is room in the queue, so nobody waits in the line.
      have hline : b.line = [] := by
        by_contra hline
        have hfull := hl.full hline
        have hcapacity := hl.capacity
        rw [hqueue, hgranted, List.length_nil, List.length_nil] at hfull
        omega
      simp [dispatcherWait, hdispatcher, isSealed, hclosed, hgranted, hline, Wait.for]
    · simp [dispatcherWait, hdispatcher, hqueue, Wait.for]
  | acquiring item k =>
    have hslots := hb.slots
    rw [hdispatcher, started, hworkers] at hslots
    have hholds : k ∈ b.slots.holding := hslots.mem_holding
    simp [dispatcherWait, hdispatcher, hholds, Wait.for]
  | joining => simp [dispatcherWait, hdispatcher, hworkers, Wait.for]
  | done =>
    rw [isDrained, hdispatcher] at hleft
    cases hleft

end Staff

/-! ## Blocks with those who post -/

/-- Whoever posts an item withdraws. -/
def Posting.withdraw (b : Block ι κ) : Posting ι κ → Block ι κ
  | .waiting _ ticket => b.withdraw ticket
  | _ => b

/-- A block is staffed, and those who wait in front of its queue are among some who post. -/
structure Block.Attended (b : Block ι κ) (posts : List (Posting ι κ)) : Prop where
  staffed : b.Staffed
  lined : b.Lined (posts.flatMap Posting.tickets)

/-- What is left to do in a block and for those who wait in front of its queue. -/
def Block.burden (b : Block ι κ) (posts : List (Posting ι κ)) : ℕ :=
  (posts.map (Posting.load b.maximumAttempts)).sum + b.effort

/-- Whoever does not wait has nothing to wait for. -/
theorem Posting.load_of_tickets {p : Posting ι κ} (h : p.tickets = []) (limit : ℕ) :
    p.load limit = 0 := by
  cases p with
  | waiting => cases h
  | trying | calling | sending | done => rfl

namespace Block.Attended

variable {b b' : Block ι κ} {posts : List (Posting ι κ)} {i : ℕ} {p q : Posting ι κ}

/-- A new block is attended by those who do not wait. -/
theorem new {name : String} {config : Config.Retrying} (hb : Block.new name config = .ok b)
    (hposts : ∀ p ∈ posts, p.tickets = []) : b.Attended posts := by
  obtain ⟨hstaffed, hlined⟩ := staffed_new hb
  exact ⟨hstaffed, (List.flatMap_eq_nil_iff.mpr hposts).symm ▸ hlined⟩

/-- Someone who posts has a turn. -/
theorem turn (hb : b.Attended posts) (hp : posts[i]? = some p) (h : p.Goes b q b') :
    b'.Attended (posts.set i q) := by
  obtain ⟨others, htickets, hset⟩ := flatMap_set Posting.tickets hp
  exact ⟨h.staffed hb.staffed, (h.lined (hb.lined.perm htickets)).perm (hset q).symm⟩

/-- Someone who does not wait does not begin to wait. -/
theorem idles (hb : b.Attended posts) (hp : posts[i]? = some p) (hbefore : p.tickets = [])
    (hafter : q.tickets = []) : b.Attended (posts.set i q) := by
  obtain ⟨others, htickets, hset⟩ := flatMap_set Posting.tickets hp
  have hset := hset q
  rw [hbefore] at htickets
  rw [hafter] at hset
  exact ⟨hb.staffed, (hb.lined.perm htickets).perm hset.symm⟩

/-- Someone who does not wait comes. -/
theorem comes (hb : b.Attended posts) (hp : p.tickets = []) : b.Attended (posts ++ [p]) := by
  refine ⟨hb.staffed, ?_⟩
  rw [List.flatMap_append, List.flatMap_singleton, hp, List.append_nil]
  exact hb.lined

/-- Someone who posts withdraws. -/
theorem withdraws (hb : b.Attended posts) (hp : posts[i]? = some p) :
    (p.withdraw b).Attended (posts.eraseIdx i) := by
  obtain ⟨hi, rfl⟩ := List.getElem?_eq_some_iff.mp hp
  have hperm : (posts.flatMap Posting.tickets).Perm
      (posts[i].tickets ++ (posts.eraseIdx i).flatMap Posting.tickets) := by
    rw [← List.flatMap_cons]
    exact ((List.getElem_cons_eraseIdx_perm hi).symm.flatMap_right _)
  have hlined := hb.lined.perm hperm
  cases hat : posts[i] with
  | waiting item ticket =>
    rw [hat] at hlined
    exact ⟨hb.staffed.withdraw ticket, hlined.withdraw⟩
  | trying | calling | sending | done =>
    rw [hat] at hlined
    exact ⟨hb.staffed, hlined⟩

/-- The dispatcher has a turn. -/
theorem stepDispatcher (hb : b.Attended posts) : b.stepDispatcher.Attended posts :=
  ⟨hb.staffed.stepDispatcher, hb.lined.stepDispatcher⟩

/-- A worker has a turn. -/
theorem stepWorker (hb : b.Attended posts) (h : Handler ι κ ω) (m : Metrics) (k : ℕ) (now : Moment)
    (world : ω) : (b.stepWorker h m k now world).1.Attended posts := by
  cases hk : b.worker? k with
  | none =>
    unfold Block.stepWorker
    rw [hk]
    exact hb
  | some w =>
    obtain ⟨tally, w', hstep, -⟩ := b.stepWorker_goOn h m hk now world
    rw [hstep]
    exact ⟨hb.staffed.goOn hk tally w', hb.lined.goOn k tally w'⟩

/-- The block is stopped. -/
theorem stop (hb : b.Attended posts) : b.stop.Attended posts :=
  ⟨hb.staffed.stop, hb.lined.of_same rfl rfl rfl rfl rfl⟩

end Block.Attended

end Tidemark.Retry
