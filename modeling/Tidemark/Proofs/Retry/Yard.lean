import Tidemark.Proofs.Retry.Books

/-!
# Everyone who has to do with a retry block

A `Yard` is a retry block together with the calls that post items to it. Whoever has a turn makes a
`Move`: someone posts an item or goes on posting one, the dispatcher or a worker takes its next
step, or someone drains the block or shuts it down. The moves come in any order and at any times.

Items are numbered in the order of their posts. The handler does not see the numbers, but its calls
are noted by them (`audited`). The books on a yard (`Yard.books`) list its items, and every move
enters events into them (`Yard.Wired.enters_move`).
-/

namespace Tidemark.Retry

variable {ι κ ω : Type}

/-- A handler of numbered items whose calls are noted. -/
def audited (h : Handler ι κ ω) : Handler (ℕ × ι) (ℕ × κ) (ω × Record) where
  start x now world :=
    let ((call, due), inner) := h.start x.2 now world.1
    (((x.1, call), due), (inner, world.2.begins x.1))
  finish call now world :=
    let (outcome, inner) := h.finish call.2 now world.1
    (outcome, (inner, world.2.ends call.1 outcome))

/-- No call of the handler crashes. -/
def NeverCrashes (h : Handler ι κ ω) : Prop :=
  ∀ call now world cause, (h.finish call now world).1 ≠ .error (.crash cause)

/-- The beginning of a call is noted. -/
theorem audited_start (h : Handler ι κ ω) (x : ℕ × ι) (now : Moment) (world : ω × Record) :
    ∃ call due inner, (audited h).start x now world =
      (((x.1, call), due), (inner, world.2.begins x.1)) :=
  ⟨_, _, _, rfl⟩

/-- A retry block and those who post items to it. -/
structure Yard (ι κ ω : Type) where
  block : Block (ℕ × ι) (ℕ × κ)
  /-- The posts, oldest first. The number of an item is the place of its post. -/
  posts : List (Posting (ℕ × ι) (ℕ × κ)) := []
  /-- The posts that found the block open and are about to put their item into the queue. -/
  holding : List ℕ := []
  metrics : Metrics := {}
  /-- The world of the handler, and the record of its calls. -/
  world : ω × Record

/-- What can happen in a yard at once. -/
inductive Move (ι : Type) where
  /-- Someone begins to post an item for the workers. -/
  | post (item : ι)
  /-- Someone begins to post an item with a first attempt of their own. -/
  | postAsync (item : ι)
  /-- A post takes its next step. -/
  | poster (i : ℕ) (now : Moment)
  /-- A post finds the block open and takes hold of the queue. -/
  | holds (i : ℕ)
  /-- The dispatcher takes its next step. -/
  | dispatcher
  /-- A worker takes its next step. -/
  | worker (k : ℕ) (now : Moment)
  /-- A worker has waited long enough at the moment at which the block is stopped, and goes on. -/
  | overruns (k : ℕ) (now : Moment)
  /-- Someone begins to drain the block. -/
  | drain
  /-- Someone begins to shut the block down. -/
  | shutdown
  /-- Someone begins to shut the block down, and has not come to close it. -/
  | signals

namespace Yard

/-- A post that takes hold of the queue of an open block. -/
def hold (y : Yard ι κ ω) (i : ℕ) : Yard ι κ ω :=
  match y.posts[i]? with
  | some (.sending _) => if y.block.isOpen then { y with holding := i :: y.holding } else y
  | _ => y

/-- A post that holds the queue puts its item there or joins the line, even if the block has been
closed meanwhile. -/
def deliver (y : Yard ι κ ω) (i : ℕ) : Yard ι κ ω :=
  match y.posts[i]? with
  | some (.sending item) =>
    let (p, b) := Posting.send { y.block with isOpen := true } item
    { y with block := { b with isOpen := y.block.isOpen }, posts := y.posts.set i p,
             holding := y.holding.filter (· ≠ i) }
  | _ => y

/-- A post that takes its next step. -/
def stepPoster (h : Handler ι κ ω) (y : Yard ι κ ω) (i : ℕ) (now : Moment) : Yard ι κ ω :=
  if i ∈ y.holding then y.deliver i
  else
    match y.posts[i]? with
    | none => y
    | some p =>
      let (p, b, m, world) := p.step (audited h) y.block y.metrics now y.world
      { y with block := b, posts := y.posts.set i p, metrics := m, world := world }

/-- The dispatcher does not take an empty queue for closed while a post holds it. -/
def stepDispatcher (y : Yard ι κ ω) : Yard ι κ ω :=
  match y.block.dispatcher, y.block.queue, y.holding with
  | .receiving, [], _ :: _ => y
  | _, _, _ => { y with block := y.block.stepDispatcher }

/-- A worker that takes its next step. -/
def stepWorker (h : Handler ι κ ω) (y : Yard ι κ ω) (k : ℕ) (now : Moment) : Yard ι κ ω :=
  let (b, m, world) := y.block.stepWorker (audited h) y.metrics k now y.world
  { y with block := b, metrics := m, world := world }

/-- A worker that begins a further attempt, whether or not the block was stopped. -/
def overrun (h : Handler ι κ ω) (y : Yard ι κ ω) (k : ℕ) (now : Moment) : Yard ι κ ω :=
  match y.block.worker? k with
  | some (.resting item _) =>
    let (b, world) := y.block.attempt (audited h) k item now y.world
    { y with block := b, world := world }
  | _ => y

/-- A yard after a move. -/
def move (h : Handler ι κ ω) (y : Yard ι κ ω) : Move ι → Yard ι κ ω
  | .post item => { y with posts := y.posts ++ [.post (y.posts.length, item)] }
  | .postAsync item => { y with posts := y.posts ++ [.trying (y.posts.length, item)] }
  | .poster i now => y.stepPoster h i now
  | .holds i => y.hold i
  | .dispatcher => y.stepDispatcher
  | .worker k now => y.stepWorker h k now
  | .overruns k now => y.overrun h k now
  | .drain => { y with block := y.block.close }
  | .shutdown => { y with block := y.block.stop }
  | .signals => { y with block := { y.block with stopping := true } }

/-- A yard after moves. -/
def play (h : Handler ι κ ω) (y : Yard ι κ ω) (moves : List (Move ι)) : Yard ι κ ω :=
  moves.foldl (move h) y

end Yard

/-! ## Items -/

/-- An item that someone has. -/
def Item.held (x : Item (ℕ × ι)) (calling inside : Bool) : Held :=
  ⟨x.item.1, x.attempts, calling, inside⟩

/-- The item that someone has who posts it. -/
def Posting.held : Posting (ℕ × ι) (ℕ × κ) → List Held
  | .trying x => [⟨x.1, 0, false, false⟩]
  | .calling item _ _ => [item.held true false]
  | .sending item | .waiting item _ => [item.held false false]
  | .done _ => []

/-- The answer of a post that has ended. -/
def Posting.answer? : Posting ι κ → Option (Outcome Unit)
  | .done outcome => some outcome
  | _ => none

/-- The item that the dispatcher has. -/
def Dispatcher.held : Dispatcher (ℕ × ι) → List Held
  | .acquiring item _ => [item.held false true]
  | _ => []

/-- The item that a worker has. -/
def Worker.held : Worker (ℕ × ι) (ℕ × κ) → Held
  | .starting item | .resting item _ => item.held false true
  | .calling item _ _ => item.held true true

/-- The items that are in a block. -/
def Block.held (b : Block (ℕ × ι) (ℕ × κ)) : List Held :=
  b.queue.map (·.held false true) ++ b.dispatcher.held ++ b.workers.map (·.2.held)

/-- The items that are in a yard. -/
def Yard.held (y : Yard ι κ ω) : List Held := y.posts.flatMap Posting.held ++ y.block.held

/-- The books on a yard, given the fates that its other items have met. -/
def Yard.books (y : Yard ι κ ω) (fates : List (ℕ × Fate)) : Books :=
  ⟨y.held, fates, y.world.2, y.block.tally, y.posts.map Posting.answer?, y.block.stopping⟩

/-! ## Cases -/

/-- An item that is sent is refused, gets into the queue, or waits for a place there. -/
theorem Posting.send_cases (b : Block ι κ) (item : Item ι) :
    send b item = (.done (.error (.error .shutdown)), b) ∧ b.isOpen = false ∨
      send b item = (.done (.ok ()), b.push item) ∧ b.isOpen = true ∨
        send b item = (.waiting item b.nextTicket,
          { b with line := b.line ++ [b.nextTicket], nextTicket := b.nextTicket + 1 }) ∧
          b.isOpen = true ∧ b.hasRoom = false := by
  unfold send
  cases hopen : b.isOpen with
  | false => exact .inl ⟨rfl, rfl⟩
  | true =>
    by_cases hroom : b.hasRoom = true
    · exact .inr (.inl ⟨by simp [hroom], rfl⟩)
    · exact .inr (.inr ⟨by simp [hroom], rfl, Bool.eq_false_iff.mpr hroom⟩)

/-- A post takes hold of the queue of an open block at most. -/
theorem Yard.hold_cases (y : Yard ι κ ω) (i : ℕ) :
    y.hold i = y ∨ y.hold i = { y with holding := i :: y.holding } ∧ y.block.isOpen = true ∧
      i < y.posts.length := by
  unfold Yard.hold
  split
  next hp =>
    split_ifs with hopen
    · exact .inr ⟨rfl, hopen, (List.getElem?_eq_some_iff.mp hp).1⟩
    · exact .inl rfl
  next => exact .inl rfl

/-- A post that has its turn takes its next step, or puts the item into the queue that it holds. -/
theorem Yard.stepPoster_cases (h : Handler ι κ ω) (y : Yard ι κ ω) (i : ℕ) (now : Moment) :
    y.stepPoster h i now = y ∨
      (∃ p, y.posts[i]? = some p ∧ i ∉ y.holding ∧ y.stepPoster h i now = { y with
        block := (p.step (audited h) y.block y.metrics now y.world).2.1
        posts := y.posts.set i (p.step (audited h) y.block y.metrics now y.world).1
        metrics := (p.step (audited h) y.block y.metrics now y.world).2.2.1
        world := (p.step (audited h) y.block y.metrics now y.world).2.2.2 }) ∨
      ∃ item, y.posts[i]? = some (.sending item) ∧ i ∈ y.holding ∧
        y.stepPoster h i now = { y with
          block := { (Posting.send { y.block with isOpen := true } item).2 with
            isOpen := y.block.isOpen }
          posts := y.posts.set i (Posting.send { y.block with isOpen := true } item).1
          holding := y.holding.filter (· ≠ i) } := by
  unfold Yard.stepPoster
  by_cases hholding : i ∈ y.holding
  · rw [if_pos hholding]
    unfold Yard.deliver
    rcases hp : y.posts[i]? with _ | (_ | _ | item | _ | _)
    case some.sending => exact .inr (.inr ⟨item, rfl, hholding, rfl⟩)
    all_goals exact .inl rfl
  · rw [if_neg hholding]
    cases hp : y.posts[i]? with
    | none => exact .inl rfl
    | some p => exact .inr (.inl ⟨p, rfl, hholding, rfl⟩)

/-- The dispatcher takes a step, unless it waits for a post that holds the queue. -/
theorem Yard.stepDispatcher_cases (y : Yard ι κ ω) :
    y.stepDispatcher = y ∨ y.stepDispatcher = { y with block := y.block.stepDispatcher } ∧
      (y.block.dispatcher = .receiving → y.block.queue = [] → y.holding = []) := by
  unfold Yard.stepDispatcher
  split
  next => exact .inl rfl
  next hwaits =>
    refine .inr ⟨rfl, fun hdispatcher hqueue => ?_⟩
    cases hholding : y.holding with
    | nil => rfl
    | cons i rest => exact (hwaits _ _ hdispatcher hqueue hholding).elim

/-! ## Wiring -/

/-- A post has the item of its number. -/
def Posting.Of (i : ℕ) : Posting (ℕ × ι) (ℕ × κ) → Prop
  | .trying x => x.1 = i
  | .calling item call _ => item.item.1 = i ∧ call.1 = i
  | .sending item | .waiting item _ => item.item.1 = i
  | .done _ => True

/-- The call of a worker is for the item of the worker. -/
def Worker.Wired : Worker (ℕ × ι) (ℕ × κ) → Prop
  | .calling item call _ => call.1 = item.item.1
  | _ => True

/-- The tasks of a block have numbers of their own, and each does its own work. Once the dispatcher
has seen the end of the queue, nothing comes into it, and once the dispatcher has ended no worker is
left. -/
structure Block.Wired (b : Block (ℕ × ι) (ℕ × κ)) : Prop where
  keys : (b.workers.map Prod.fst).Nodup
  below : ∀ k ∈ b.workers.map Prod.fst, k < b.nextWorker
  acquiring : ∀ item k, b.dispatcher = .acquiring item k →
    k < b.nextWorker ∧ k ∉ b.workers.map Prod.fst
  calls : ∀ w ∈ b.workers, w.2.Wired
  closed : b.dispatcher = .joining ∨ b.dispatcher = .done → b.queue = [] ∧ b.isSealed = true
  gone : b.dispatcher = .done → b.workers = []

/-- The block and the posts of a yard do their own work. -/
structure Yard.Wired (y : Yard ι κ ω) : Prop where
  block : y.block.Wired
  posts : ∀ i p, y.posts[i]? = some p → Posting.Of i p
  holders : ∀ i ∈ y.holding, i < y.posts.length
  /-- Nobody holds the queue once the dispatcher has seen its end. -/
  released : y.block.dispatcher = .joining ∨ y.block.dispatcher = .done → y.holding = []

/-! ## Places -/

section Places

variable {b : Block (ℕ × ι) (ℕ × κ)}

/-- An item that is put into the queue is in the block. -/
theorem Block.held_push (item : Item (ℕ × ι)) :
    (b.push item).held.Perm (item.held false true :: b.held) := by
  unfold Block.held Block.push
  rw [List.map_append, List.append_assoc, List.append_assoc, List.append_assoc]
  exact List.perm_middle

/-- A worker of a block among the workers of the block, before and after a step of it. -/
theorem Block.workers_split {b : Block ι κ} (hkeys : (b.workers.map Prod.fst).Nodup) {k : ℕ}
    {w : Worker ι κ} (hk : b.worker? k = some w) :
    ∃ before after, b.workers = before ++ (k, w) :: after ∧
      (∀ v, (b.setWorker k v).workers = before ++ (k, v) :: after) ∧
        (b.endWorker k).workers = before ++ after := by
  obtain ⟨before, after, hworkers, hbefore⟩ := List.lookup_eq_some_iff.mp hk
  rw [hworkers, List.map_append, List.map_cons, List.nodup_append, List.nodup_cons] at hkeys
  -- No other worker has the number of this one.
  have hbefore (x : ℕ × Worker ι κ) (hx : x ∈ before) : x.1 ≠ k :=
    hkeys.2.2 x.1 (List.mem_map_of_mem hx) k List.mem_cons_self
  have hafter (x : ℕ × Worker ι κ) (hx : x ∈ after) : x.1 ≠ k :=
    fun heq => hkeys.2.1.1 (List.mem_map.mpr ⟨x, hx, heq⟩)
  refine ⟨before, after, hworkers, fun v => ?_, ?_⟩
  · have hid (f : ℕ × Worker ι κ → ℕ × Worker ι κ) (l : List (ℕ × Worker ι κ))
        (hl : ∀ x ∈ l, x.1 ≠ k) (hf : ∀ x, x.1 ≠ k → f x = x) : l.map f = l := by
      conv_rhs => rw [← List.map_id l]
      exact List.map_congr_left fun x hx => hf x (hl x hx)
    unfold Block.setWorker
    rw [hworkers, List.map_append, List.map_cons, hid _ before hbefore, hid _ after hafter]
    · exact congrArg (fun x => before ++ x :: after) (if_pos rfl)
    · exact fun x hx => if_neg hx
    · exact fun x hx => if_neg hx
  · unfold Block.endWorker
    rw [hworkers, List.filter_append, List.filter_cons_of_neg (by simp),
      List.filter_eq_self.mpr (by simpa using hbefore),
      List.filter_eq_self.mpr (by simpa using hafter)]

/-- The item of a worker among the items of its block. -/
theorem Block.held_worker (hb : b.Wired) {k : ℕ} {w : Worker (ℕ × ι) (ℕ × κ)}
    (hk : b.worker? k = some w) :
    ∃ others, b.held.Perm (w.held :: others) ∧
      (∀ v, (b.setWorker k v).held.Perm (v.held :: others)) ∧
        (b.endWorker k).held.Perm others := by
  obtain ⟨before, after, hworkers, hset, hend⟩ := Block.workers_split hb.keys hk
  have hplace (v : Worker (ℕ × ι) (ℕ × κ)) :
      (b.queue.map (·.held false true) ++ b.dispatcher.held ++
        (before ++ (k, v) :: after).map (·.2.held)).Perm
        (v.held :: (b.queue.map (·.held false true) ++ b.dispatcher.held ++
          (before ++ after).map (·.2.held))) := by
    rw [List.map_append, List.map_cons, List.map_append, ← List.append_assoc, ← List.append_assoc]
    exact List.perm_middle
  refine ⟨b.queue.map (·.held false true) ++ b.dispatcher.held ++
    (before ++ after).map (·.2.held), ?_, fun v => ?_, ?_⟩
  · unfold Block.held
    rw [hworkers]
    exact hplace w
  · unfold Block.held
    rw [hset v]
    exact hplace v
  · unfold Block.held
    rw [hend]
    exact List.Perm.refl _

/-- The place that becomes free in the queue is kept without a change elsewhere. -/
theorem Block.grant_eq (b : Block ι κ) :
    ∃ line granted, b.grant = { b with line := line, granted := granted } := by
  unfold Block.grant
  cases b.line with
  | nil => exact ⟨b.line, b.granted, rfl⟩
  | cons ticket rest => exact ⟨rest, b.granted ++ [ticket], rfl⟩

/-- The dispatcher waits, takes an item from the queue and asks for a slot, starts a worker that has
its slot, or sees the end of the queue or of the last worker. -/
theorem Block.stepDispatcher_cases (b : Block ι κ) :
    b.stepDispatcher = b ∨
      (∃ item rest line granted, b.dispatcher = .receiving ∧ b.queue = item :: rest ∧
        b.stepDispatcher = { b with
          queue := rest, line := line, granted := granted
          slots := b.slots.acquire b.nextWorker
          dispatcher := .acquiring item b.nextWorker
          nextWorker := b.nextWorker + 1 }) ∨
        (b.dispatcher = .receiving ∧ b.queue = [] ∧ b.isSealed = true ∧
          b.stepDispatcher = { b with dispatcher := .joining }) ∨
          (∃ item k, b.dispatcher = .acquiring item k ∧ k ∈ b.slots.holding ∧
            b.stepDispatcher = { b with
              workers := b.workers ++ [(k, .starting item)], dispatcher := .receiving }) ∨
            b.dispatcher = .joining ∧ b.workers = [] ∧
              b.stepDispatcher = { b with dispatcher := .done } := by
  unfold Block.stepDispatcher
  split
  next hdispatcher =>
    split
    next item rest hqueue =>
      obtain ⟨line, granted, hgrant⟩ := Block.grant_eq { b with queue := rest }
      exact .inr (.inl ⟨item, rest, line, granted, hdispatcher, hqueue, by rw [hgrant]⟩)
    next hqueue =>
      split_ifs with hsealed
      · exact .inr (.inr (.inl ⟨hdispatcher, hqueue, hsealed, rfl⟩))
      · exact .inl rfl
  next item k hdispatcher =>
    split_ifs with hk
    · exact .inr (.inr (.inr (.inl ⟨item, k, hdispatcher, hk, rfl⟩)))
    · exact .inl rfl
  next hdispatcher =>
    split_ifs with hempty
    · exact .inr (.inr (.inr (.inr ⟨hdispatcher, List.isEmpty_iff.mp hempty, rfl⟩)))
    · exact .inl rfl
  next => exact .inl rfl

/-- The dispatcher moves an item at most. -/
theorem Block.held_stepDispatcher (b : Block (ℕ × ι) (ℕ × κ)) :
    b.stepDispatcher.held.Perm b.held ∧ b.stepDispatcher.tally = b.tally ∧
      b.stepDispatcher.stopping = b.stopping := by
  rcases b.stepDispatcher_cases with hstep | ⟨item, rest, line, granted, hdispatcher, hqueue, hstep⟩ |
    ⟨hdispatcher, hqueue, -, hstep⟩ | ⟨item, k, hdispatcher, -, hstep⟩ | ⟨hdispatcher, -, hstep⟩
  · rw [hstep]
    exact ⟨List.Perm.refl _, rfl, rfl⟩
  · rw [hstep]
    refine ⟨?_, rfl, rfl⟩
    unfold Block.held
    rw [hdispatcher, hqueue]
    exact List.perm_middle.append_right _
  · rw [hstep]
    simp [Block.held, Dispatcher.held, hdispatcher]
  · have hlast : (b.workers.map (·.2.held) ++ [item.held false true]).Perm
        ([item.held false true] ++ b.workers.map (·.2.held)) := List.perm_append_comm
    rw [hstep]
    refine ⟨?_, rfl, rfl⟩
    unfold Block.held
    rw [hdispatcher, List.map_append, List.append_assoc, List.append_assoc]
    exact hlast.append_left _
  · rw [hstep]
    simp [Block.held, Dispatcher.held, hdispatcher]

/-- What is listed for one of several among what is listed for all, before and after a change of
it. -/
theorem flatMap_set {α β : Type} (f : α → List β) {l : List α} {i : ℕ} {a : α}
    (ha : l[i]? = some a) :
    ∃ others, (l.flatMap f).Perm (f a ++ others) ∧
      ∀ c, ((l.set i c).flatMap f).Perm (f c ++ others) := by
  obtain ⟨hi, hget⟩ := List.getElem?_eq_some_iff.mp ha
  have hplace (c : α) : ((l.take i ++ c :: l.drop (i + 1)).flatMap f).Perm
      (f c ++ ((l.take i).flatMap f ++ (l.drop (i + 1)).flatMap f)) := by
    rw [List.flatMap_append, List.flatMap_cons, ← List.append_assoc, ← List.append_assoc]
    exact List.perm_append_comm.append_right _
  refine ⟨(l.take i).flatMap f ++ (l.drop (i + 1)).flatMap f, ?_, fun c => ?_⟩
  · have hself : l.take i ++ a :: l.drop (i + 1) = l := by
      rw [← hget, List.getElem_cons_drop, List.take_append_drop]
    have hperm := hplace a
    rwa [hself] at hperm
  · rw [List.set_eq_take_append_cons_drop, if_pos hi]
    exact hplace c

end Places

end Tidemark.Retry
