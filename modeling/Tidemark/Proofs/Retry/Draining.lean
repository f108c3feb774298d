import Mathlib.Algebra.BigOperators.Group.List.Basic
import Mathlib.Algebra.Ring.Nat
import Tidemark.Proofs.Retry.Dispatch

/-!
# A closed retry block can be drained

How much is left to do in a yard is a number (`Yard.effort`), and the turn of whoever can go on
lowers it (`Yard.Manned.effort_lt`). Nobody waits for ever: someone who waits for a place in the
queue has a ticket, which is in the line or kept for them (`Yard.Lined`), and while there is a line
the queue has items that the dispatcher takes, which waits for a slot only while workers hold them
all. So as long as a post has no answer, or the block is closed and not drained, someone is ready
(`Yard.Manned.ready_of_unanswered`, `Yard.Manned.ready_of_undrained`).

It follows that there is an end to the turns (`Yard.Manned.length_add_effort`), and that once nobody
is ready, every post has its answer and a block that is closed is drained (`Yard.Manned.ends`).
-/

namespace Tidemark.Retry

variable {ι κ ω : Type}

/-! ## Effort -/

/-- What is left to do with an item in the queue, if it may have so many attempts. -/
def Item.effort (limit : ℕ) (x : Item ι) : ℕ := 2 * (limit - x.attempts) + 5

/-- What is left to do for a worker. -/
def Worker.effort (limit : ℕ) : Worker ι κ → ℕ
  | .starting item => 2 * (limit - item.attempts) + 3
  | .resting item _ => max (2 * (limit - item.attempts)) 2
  | .calling item _ _ => 2 * (limit - item.attempts) + 1

/-- What is left to do for the dispatcher. -/
def Dispatcher.effort (limit : ℕ) : Dispatcher ι → ℕ
  | .receiving => 2
  | .acquiring item _ => 2 * (limit - item.attempts) + 6
  | .joining => 1
  | .done => 0

/-- What is left to do for someone who posts an item. -/
def Posting.effort (limit : ℕ) : Posting ι κ → ℕ
  | .trying _ => 2 * limit + 9
  | .calling item _ _ => 2 * (limit - item.attempts) + 8
  | .sending item => 2 * (limit - item.attempts) + 7
  | .waiting item _ => 2 * (limit - item.attempts) + 6
  | .done _ => 0

/-- What is left to do in a block. -/
def Block.effort (b : Block ι κ) : ℕ :=
  (b.queue.map (Item.effort b.maximumAttempts)).sum + b.dispatcher.effort b.maximumAttempts +
    (b.workers.map fun w => w.2.effort b.maximumAttempts).sum

/-- What is left to do in a yard. -/
def Yard.effort (y : Yard ι κ ω) : ℕ :=
  (y.posts.map (Posting.effort y.block.maximumAttempts)).sum + y.block.effort

section Blocks

variable {b : Block ι κ}

/-- The turn of a worker leaves less to do for it. -/
theorem Block.stepWorker_goOn (h : Handler ι κ ω) (b : Block ι κ) (m : Metrics) {k : ℕ}
    {w : Worker ι κ} (hk : b.worker? k = some w) (now : Moment) (world : ω) :
    ∃ tally w', (b.stepWorker h m k now world).1 = b.goOn k tally w' ∧
      w'.elim 0 (Worker.effort b.maximumAttempts) < w.effort b.maximumAttempts := by
  have hrest (item : Item ι) (b' : Block ι κ) (hb' : ∃ tally, b' = { b with tally := tally })
      (hlt : max (2 * (b.maximumAttempts - item.attempts)) 2 < w.effort b.maximumAttempts) :
      ∃ tally w', b'.rest k item now = b.goOn k tally w' ∧
        w'.elim 0 (Worker.effort b.maximumAttempts) < w.effort b.maximumAttempts := by
    obtain ⟨tally, rfl⟩ := hb'
    unfold rest
    split_ifs
    · exact ⟨_, none, rfl, Nat.zero_lt_of_lt hlt⟩
    · exact ⟨_, some _, rfl, hlt⟩
  cases w with
  | starting item =>
    simp only [stepWorker, hk]
    split_ifs with hfresh
    · refine ⟨b.tally, some _, rfl, ?_⟩
      simp only [Option.elim, Worker.effort]
      omega
    · refine hrest item b ⟨b.tally, rfl⟩ ?_
      simp only [Worker.effort]
      omega
  | resting item due =>
    simp only [stepWorker, hk]
    split_ifs
    · refine ⟨b.abandon.tally, none, rfl, ?_⟩
      simp only [Option.elim, Worker.effort]
      omega
    · refine ⟨b.tally, some _, rfl, ?_⟩
      simp only [Option.elim, Worker.effort]
      omega
  | calling item call due =>
    have hpos : 0 < (Worker.calling item call due).effort b.maximumAttempts := Nat.succ_pos _
    rcases hfinish : h.finish call now world with ⟨(e | cause) | ⟨⟩, world'⟩
    · simp only [stepWorker, hk, hfinish, record]
      split_ifs with hused
      · exact ⟨_, none, rfl, hpos⟩
      · refine hrest item _ ⟨_, rfl⟩ ?_
        have hleft : item.attempts < b.maximumAttempts := by simpa [isExhausted] using hused
        simp only [Worker.effort]
        omega
    · simp only [stepWorker, hk, hfinish, record]
      exact ⟨b.tally, none, rfl, hpos⟩
    · simp only [stepWorker, hk, hfinish, record]
      exact ⟨_, none, rfl, hpos⟩

/-- The turn of a worker leaves less to do in its block. -/
theorem Block.effort_goOn (hkeys : (b.workers.map Prod.fst).Nodup) {k : ℕ} {w : Worker ι κ}
    (hk : b.worker? k = some w) (tally : Tally) {w' : Option (Worker ι κ)}
    (hlt : w'.elim 0 (Worker.effort b.maximumAttempts) < w.effort b.maximumAttempts) :
    (b.goOn k tally w').effort < b.effort := by
  obtain ⟨before, after, hworkers, hset, hend⟩ := Block.workers_split hkeys hk
  have hbefore : (b.workers.map fun w => w.2.effort b.maximumAttempts).sum =
      (before.map fun w => w.2.effort b.maximumAttempts).sum + (w.effort b.maximumAttempts +
        (after.map fun w => w.2.effort b.maximumAttempts).sum) := by
    rw [hworkers, List.map_append, List.map_cons, List.sum_append, List.sum_cons]
  have hafter : ((b.goOn k tally w').workers.map fun w => w.2.effort b.maximumAttempts).sum =
      (before.map fun w => w.2.effort b.maximumAttempts).sum +
        (w'.elim 0 (Worker.effort b.maximumAttempts) +
          (after.map fun w => w.2.effort b.maximumAttempts).sum) := by
    cases w' with
    | some v =>
      have hset : (b.goOn k tally (some v)).workers = before ++ (k, v) :: after := hset v
      rw [hset, List.map_append, List.map_cons, List.sum_append, List.sum_cons]
      rfl
    | none =>
      have hend : (b.goOn k tally none).workers = before ++ after := hend
      rw [hend, List.map_append, List.sum_append, Option.elim_none, Nat.zero_add]
  have hrest : (b.goOn k tally w').queue = b.queue ∧
      (b.goOn k tally w').dispatcher = b.dispatcher ∧
        (b.goOn k tally w').maximumAttempts = b.maximumAttempts := by
    cases w' with
    | some v => exact ⟨rfl, rfl, rfl⟩
    | none => exact ⟨rfl, rfl, rfl⟩
  unfold effort
  rw [hrest.1, hrest.2.1, hrest.2.2, hafter, hbefore]
  omega

/-- The dispatcher goes on where it is ready. -/
theorem Block.stepDispatcher_ne (hready : b.dispatcherWait = .ready) : b.stepDispatcher ≠ b := by
  intro hsame
  have hdispatcher := congrArg Block.dispatcher hsame
  unfold dispatcherWait Wait.for at hready
  unfold stepDispatcher at hdispatcher
  cases hat : b.dispatcher with
  | receiving =>
    rw [hat] at hready hdispatcher
    cases hqueue : b.queue with
    | nil => simp_all
    | cons item rest => simp_all
  | acquiring item k =>
    rw [hat] at hready hdispatcher
    simp_all
  | joining =>
    rw [hat] at hready hdispatcher
    simp_all
  | done =>
    rw [hat] at hready
    cases hready

/-- The dispatcher that is ready leaves less to do in its block. -/
theorem Block.effort_stepDispatcher (hready : b.dispatcherWait = .ready) :
    b.stepDispatcher.effort < b.effort := by
  rcases b.stepDispatcher_cases with hstep | ⟨item, rest, line, granted, hdispatcher, hqueue, hstep⟩ |
    ⟨hdispatcher, hqueue, -, hstep⟩ | ⟨item, k, hdispatcher, -, hstep⟩ | ⟨hdispatcher, -, hstep⟩
  · exact absurd hstep (b.stepDispatcher_ne hready)
  all_goals
    rw [hstep]
    unfold effort
    simp only [hdispatcher, Dispatcher.effort]
  · rw [hqueue, List.map_cons, List.sum_cons, Item.effort]
    omega
  · omega
  · rw [List.map_append, List.sum_append, List.map_singleton, List.sum_singleton, Worker.effort]
    omega
  · omega

end Blocks

/-! ## Turns -/

/-- An item in the queue adds what is left to do with it. -/
theorem Block.effort_push (b : Block ι κ) (item : Item ι) :
    (b.push item).effort = b.effort + item.effort b.maximumAttempts := by
  unfold effort push
  simp only [List.map_append, List.map_cons, List.map_nil, List.sum_append, List.sum_singleton]
  omega

/-- Someone who sends an item to the queue leaves less to do. -/
theorem Posting.effort_send (b : Block ι κ) (item : Item ι) :
    (send b item).1.effort b.maximumAttempts + (send b item).2.effort <
      (Posting.sending item : Posting ι κ).effort b.maximumAttempts + b.effort := by
  rcases send_cases b item with ⟨hsend, -⟩ | ⟨hsend, -⟩ | ⟨hsend, -⟩
  · rw [hsend]
    simp only [effort]
    omega
  · rw [hsend]
    simp only [effort, Block.effort_push, Item.effort]
    omega
  · have hsame : ({ b with line := b.line ++ [b.nextTicket], nextTicket := b.nextTicket + 1 } :
        Block ι κ).effort = b.effort := rfl
    rw [hsend]
    simp only [effort, hsame]
    omega

/-- The turn of whoever is ready to go on posting an item leaves less to do. -/
theorem Posting.Turn.effort_lt {h : Handler ι κ ω} {b b' : Block (ℕ × ι) (ℕ × κ)} {now : Moment}
    {world world' : ω × Record} {p q : Posting (ℕ × ι) (ℕ × κ)}
    (hp : p.Turn h b now world b' world' q) (hready : p.wait b now = .ready) :
    q.effort b.maximumAttempts + b'.effort < p.effort b.maximumAttempts + b.effort := by
  have hcounted (tally : Tally) : { b with tally := tally }.effort = b.effort := rfl
  cases hp with
  | begins | turned | crashes => simp only [effort]; omega
  | succeeds | exhausts | fails => simp only [effort, hcounted]; omega
  | @sends item => exact effort_send b item
  | @enters item ticket hgranted =>
    have hsame : ({ b with granted := b.granted.filter (· ≠ ticket) } :
        Block (ℕ × ι) (ℕ × κ)).effort = b.effort := rfl
    rw [Block.effort_push, hsame]
    simp only [effort, Item.effort]
    omega
  | waits hgranted =>
    unfold wait Wait.for at hready
    simp [hgranted] at hready
  | ended => cases hready

/-- What one of the posts adds to a sum over all of them. -/
theorem sum_map_set {α : Type} (f : α → ℕ) {l : List α} {i : ℕ} {a : α} (ha : l[i]? = some a) :
    ∃ rest, (l.map f).sum = f a + rest ∧ ∀ c, ((l.set i c).map f).sum = f c + rest := by
  obtain ⟨hi, hget⟩ := List.getElem?_eq_some_iff.mp ha
  have hplace (c : α) : ((l.take i ++ c :: l.drop (i + 1)).map f).sum =
      f c + (((l.take i).map f).sum + ((l.drop (i + 1)).map f).sum) := by
    rw [List.map_append, List.map_cons, List.sum_append, List.sum_cons]
    omega
  refine ⟨((l.take i).map f).sum + ((l.drop (i + 1)).map f).sum, ?_, fun c => ?_⟩
  · have hself : l.take i ++ a :: l.drop (i + 1) = l := by
      rw [← hget, List.getElem_cons_drop, List.take_append_drop]
    rw [← hplace a, hself]
  · rw [List.set_eq_take_append_cons_drop, if_pos hi]
    exact hplace c

namespace Yard

variable {h : Handler ι κ ω} {y : Yard ι κ ω}

/-- The move is the turn of someone who is ready for it. -/
def Ready (y : Yard ι κ ω) : Move ι → Prop
  | .poster i now => ∃ p, y.posts[i]? = some p ∧ p.wait y.block now = .ready
  | .dispatcher => y.block.dispatcherWait = .ready ∧
      (y.block.dispatcher = .receiving → y.block.queue = [] → y.holding = [])
  | .worker k now => y.block.workerWait now k = .ready
  | _ => False

/-- The moves are turns of those who are ready for them, one after the other. -/
def Turns (h : Handler ι κ ω) : Yard ι κ ω → List (Move ι) → Prop
  | _, [] => True
  | y, m :: ms => y.Ready m ∧ Turns h (y.move h m) ms

/-- The turn of someone who posts an item leaves less to do. -/
theorem effort_stepPoster {i : ℕ} {now : Moment} (hready : y.Ready (.poster i now))
    (hheld : i ∈ y.holding → ∃ item, y.posts[i]? = some (.sending item)) :
    (y.stepPoster h i now).effort < y.effort := by
  obtain ⟨p, hp, hready⟩ := hready
  obtain ⟨rest, hsum, hset⟩ := sum_map_set (Posting.effort y.block.maximumAttempts) hp
  -- What a turn changes is the post and the block.
  have hlt {y' : Yard ι κ ω} {q : Posting (ℕ × ι) (ℕ × κ)} (hposts : y'.posts = y.posts.set i q)
      (hlimit : y'.block.maximumAttempts = y.block.maximumAttempts)
      (hq : q.effort y.block.maximumAttempts + y'.block.effort <
        p.effort y.block.maximumAttempts + y.block.effort) : y'.effort < y.effort := by
    unfold effort
    rw [hposts, hlimit, hset q, hsum]
    omega
  generalize hy' : y.stepPoster h i now = y'
  by_cases hi : i ∈ y.holding
  · obtain ⟨item, hitem⟩ := hheld hi
    obtain rfl : p = .sending item := Option.some.inj (hp.symm.trans hitem)
    rw [stepPoster, if_pos hi, deliver, hitem] at hy'
    have hspares := Posting.send_spares { y.block with isOpen := true } item
    have heffort := Posting.effort_send { y.block with isOpen := true } item
    exact hlt (by rw [← hy']) (by rw [← hy']; exact hspares.limit) (by rw [← hy']; exact heffort)
  · have hturn := p.step_turn h y.block y.metrics now y.world
    rw [stepPoster, if_neg hi, hp] at hy'
    exact hlt (by rw [← hy']) (by rw [← hy']; exact hturn.spares.1.limit)
      (by rw [← hy']; exact hturn.effort_lt hready)

/-- A worker that is ready leaves less to do with its turn. -/
theorem effort_stepWorker (hy : y.block.Wired) {k : ℕ} {w : Worker (ℕ × ι) (ℕ × κ)}
    (hk : y.block.worker? k = some w) (now : Moment) : (y.stepWorker h k now).effort < y.effort := by
  obtain ⟨tally, w', hblock, hless⟩ := y.block.stepWorker_goOn (audited h) y.metrics hk now y.world
  have hlt := Block.effort_goOn hy.keys hk tally hless
  have hlimit : (y.block.goOn k tally w').maximumAttempts = y.block.maximumAttempts := by
    cases w' <;> rfl
  show (y.posts.map (Posting.effort
    (y.block.stepWorker (audited h) y.metrics k now y.world).1.maximumAttempts)).sum +
      (y.block.stepWorker (audited h) y.metrics k now y.world).1.effort < _
  rw [hblock, hlimit]
  exact Nat.add_lt_add_left hlt _

/-- The dispatcher that is ready leaves less to do with its turn. -/
theorem effort_dispatcher (hready : y.Ready .dispatcher) : y.stepDispatcher.effort < y.effort := by
  have hstep : y.stepDispatcher = { y with block := y.block.stepDispatcher } := by
    unfold stepDispatcher
    split
    next hdispatcher hqueue hholding =>
      rw [hready.2 hdispatcher hqueue] at hholding
      cases hholding
    next => rfl
  rw [hstep]
  unfold effort
  rw [y.block.stepDispatcher_spares.1.limit]
  exact Nat.add_lt_add_left (Block.effort_stepDispatcher hready.1) _

end Yard

/-! ## The line in front of the queue -/

/-- The ticket of someone who waits for a place in the queue. -/
def Posting.tickets : Posting ι κ → List ℕ
  | .waiting _ ticket => [ticket]
  | _ => []

/-- The line in front of a queue: everyone who waits has a ticket of their own, which is in the line
or has a place kept for it, and there is no line while there is room. -/
structure Block.Lined (b : Block ι κ) (tickets : List ℕ) : Prop where
  tickets : (b.granted ++ b.line).Perm tickets
  nodup : (b.granted ++ b.line).Nodup
  below : ∀ t ∈ b.granted ++ b.line, t < b.nextTicket
  full : b.line ≠ [] → b.capacity ≤ b.queue.length + b.granted.length
  capacity : 0 < b.capacity

section Lines

variable {b : Block ι κ} {others : List ℕ}

/-- Someone who sends an item joins the line only where there is no room. -/
theorem Block.Lined.send (hb : b.Lined others) (item : Item ι) :
    (Posting.send b item).2.Lined ((Posting.send b item).1.tickets ++ others) := by
  rcases Posting.send_cases b item with ⟨hsend, -⟩ | ⟨hsend, -⟩ | ⟨hsend, -, hroom⟩
  · rw [hsend]
    exact hb
  · rw [hsend]
    refine ⟨hb.tickets, hb.nodup, hb.below, fun hline => ?_, hb.capacity⟩
    have hfull := hb.full hline
    show b.capacity ≤ (b.queue ++ [item]).length + b.granted.length
    rw [List.length_append, List.length_singleton]
    omega
  · have hnew : b.nextTicket ∉ b.granted ++ b.line := fun hmem => lt_irrefl _ (hb.below _ hmem)
    have hperm : (b.granted ++ (b.line ++ [b.nextTicket])).Perm
        (b.nextTicket :: (b.granted ++ b.line)) := by
      rw [← List.append_assoc]
      exact List.perm_append_singleton _ _
    rw [hsend]
    refine ⟨hperm.trans (hb.tickets.cons _), ?_, fun t ht => ?_, fun _ => ?_, hb.capacity⟩
    · exact hperm.symm.nodup (List.nodup_cons.mpr ⟨hnew, hb.nodup⟩)
    · rcases List.mem_cons.mp (hperm.mem_iff.mp ht) with rfl | hmem
      · exact Nat.lt_succ_self _
      · exact Nat.lt_succ_of_lt (hb.below t hmem)
    · -- Without a line, there would be room in a queue that is not full.
      show b.capacity ≤ b.queue.length + b.granted.length
      by_cases hline : b.line = []
      · simpa [Block.hasRoom, hline] using hroom
      · exact hb.full hline

/-- Someone whose place was kept takes it. -/
theorem Block.Lined.enters {t : ℕ} (hb : b.Lined (t :: others)) (hgranted : t ∈ b.granted)
    (item : Item ι) :
    (Block.push { b with granted := b.granted.filter (· ≠ t) } item).Lined others := by
  have hgrantedNodup : b.granted.Nodup := (List.nodup_append.mp hb.nodup).1
  have herase : b.granted.filter (· ≠ t) = b.granted.erase t := by
    rw [hgrantedNodup.erase_eq_filter]
    exact List.filter_congr fun x _ => by by_cases hx : x = t <;> simp [hx]
  have hperm : (b.granted ++ b.line).Perm (t :: (b.granted.erase t ++ b.line)) :=
    (List.perm_cons_erase hgranted).append_right _
  have hlength : (b.granted.erase t).length + 1 = b.granted.length :=
    List.length_erase_add_one hgranted
  have hnodup := (List.nodup_cons.mp (hperm.nodup hb.nodup)).2
  rw [herase]
  refine ⟨(hperm.symm.trans hb.tickets).cons_inv, hnodup, fun x hx => ?_, fun hline => ?_,
    hb.capacity⟩
  · exact hb.below x (hperm.mem_iff.mpr (List.mem_cons_of_mem _ hx))
  · have hfull := hb.full hline
    show b.capacity ≤ (b.queue ++ [item]).length + (b.granted.erase t).length
    rw [List.length_append, List.length_singleton]
    omega

/-- The dispatcher keeps the place for the first in the line that it frees. -/
theorem Block.Lined.stepDispatcher (hb : b.Lined others) : b.stepDispatcher.Lined others := by
  unfold Block.stepDispatcher
  split
  next =>
    split
    next item rest hqueue =>
      unfold Block.grant
      cases hline : b.line with
      | nil =>
        have htickets := hb.tickets
        have hnodup := hb.nodup
        have hbelow := hb.below
        rw [hline] at htickets hnodup hbelow
        dsimp only
        exact ⟨htickets, hnodup, hbelow, fun hne => absurd rfl hne, hb.capacity⟩
      | cons t line =>
        have hmoved : b.granted ++ [t] ++ line = b.granted ++ b.line := by
          rw [hline, List.append_assoc]
          rfl
        have hfull := hb.full (by rw [hline]; exact List.cons_ne_nil _ _)
        rw [hqueue, List.length_cons] at hfull
        dsimp only
        refine ⟨?_, ?_, ?_, fun _ => ?_, hb.capacity⟩
        · exact hmoved ▸ hb.tickets
        · exact hmoved ▸ hb.nodup
        · exact hmoved ▸ hb.below
        · show b.capacity ≤ rest.length + (b.granted ++ [t]).length
          rw [List.length_append, List.length_singleton]
          omega
    next => split_ifs <;> exact ⟨hb.tickets, hb.nodup, hb.below, hb.full, hb.capacity⟩
  next => split_ifs <;> exact ⟨hb.tickets, hb.nodup, hb.below, hb.full, hb.capacity⟩
  next => split_ifs <;> exact ⟨hb.tickets, hb.nodup, hb.below, hb.full, hb.capacity⟩
  next => exact hb

/-- Whoever has a turn to post an item keeps the line in order. -/
theorem Posting.Turn.lined {h : Handler ι κ ω} {b b' : Block (ℕ × ι) (ℕ × κ)} {now : Moment}
    {world world' : ω × Record} {p q : Posting (ℕ × ι) (ℕ × κ)}
    (hp : p.Turn h b now world b' world' q) (hb : b.Lined (p.tickets ++ others)) :
    b'.Lined (q.tickets ++ others) := by
  cases hp with
  | begins | turned | crashes | waits | ended => exact hb
  | succeeds | exhausts | fails =>
    exact ⟨hb.tickets, hb.nodup, hb.below, hb.full, hb.capacity⟩
  | @sends item => exact hb.send item
  | @enters item ticket hgranted => exact hb.enters hgranted item

end Lines

namespace Yard

variable {h : Handler ι κ ω} {y : Yard ι κ ω}

/-- Everyone who waits for a place in the queue has a ticket, and whoever holds the queue is about to
put an item there. -/
structure Lined (y : Yard ι κ ω) : Prop where
  block : y.block.Lined (y.posts.flatMap Posting.tickets)
  senders : ∀ i ∈ y.holding, ∃ item, y.posts[i]? = some (.sending item)

/-- Nobody who begins to post an item waits for a place. -/
theorem Lined.posts (hy : y.Lined) {p : Posting (ℕ × ι) (ℕ × κ)} (hp : p.tickets = []) :
    Lined { y with posts := y.posts ++ [p] } where
  block := by
    show y.block.Lined ((y.posts ++ [p]).flatMap Posting.tickets)
    rw [List.flatMap_append, List.flatMap_singleton, hp, List.append_nil]
    exact hy.block
  senders i hi := by
    obtain ⟨item, hitem⟩ := hy.senders i hi
    exact ⟨item, (List.getElem?_append_left (List.getElem?_eq_some_iff.mp hitem).1).trans hitem⟩

/-- Whoever has a turn to post an item keeps the line in order. -/
theorem Lined.stepPoster (hy : y.Lined) (i : ℕ) (now : Moment) : (y.stepPoster h i now).Lined := by
  rcases y.stepPoster_cases h i now with hstep | ⟨p, hp, hi, hstep⟩ | ⟨item, hp, hi, hstep⟩
  · rw [hstep]
    exact hy
  · obtain ⟨others, htickets, hset⟩ := flatMap_set Posting.tickets hp
    have hturn := p.step_turn h y.block y.metrics now y.world
    have hb := hy.block
    have hbefore : y.block.Lined (p.tickets ++ others) :=
      ⟨hb.tickets.trans htickets, hb.nodup, hb.below, hb.full, hb.capacity⟩
    have hline := hturn.lined hbefore
    rw [hstep]
    refine ⟨⟨hline.tickets.trans (hset _).symm, hline.nodup, hline.below, hline.full,
      hline.capacity⟩, fun j hj => ?_⟩
    -- The post does not hold the queue.
    have hij : i ≠ j := fun heq => hi (heq ▸ hj)
    obtain ⟨item, hitem⟩ := hy.senders j hj
    exact ⟨item, (List.getElem?_set_ne hij).trans hitem⟩
  · obtain ⟨others, htickets, hset⟩ := flatMap_set Posting.tickets hp
    have hb := hy.block
    have hbefore : Block.Lined { y.block with isOpen := true } others :=
      ⟨hb.tickets.trans htickets, hb.nodup, hb.below, hb.full, hb.capacity⟩
    have hline := hbefore.send item
    rw [hstep]
    refine ⟨⟨hline.tickets.trans (hset _).symm, hline.nodup, hline.below, hline.full,
      hline.capacity⟩, fun j hj => ?_⟩
    obtain ⟨hj, hij⟩ := List.mem_filter.mp hj
    obtain ⟨item, hitem⟩ := hy.senders j hj
    have hij : i ≠ j := fun heq => of_decide_eq_true hij heq.symm
    exact ⟨item, (List.getElem?_set_ne hij).trans hitem⟩

/-- Every move keeps the line in order. -/
theorem Lined.move (hy : y.Lined) (m : Move ι) : (y.move h m).Lined := by
  have hb := hy.block
  cases m with
  | post x => exact hy.posts rfl
  | postAsync x => exact hy.posts rfl
  | poster i now => exact hy.stepPoster i now
  | holds i =>
    show (y.hold i).Lined
    unfold hold
    split
    next item hitem =>
      split_ifs
      · exact ⟨hb, List.forall_mem_cons.mpr ⟨⟨item, hitem⟩, hy.senders⟩⟩
      · exact hy
    next => exact hy
  | dispatcher =>
    show y.stepDispatcher.Lined
    rcases y.stepDispatcher_cases with hstep | ⟨hstep, -⟩
    · rw [hstep]
      exact hy
    · rw [hstep]
      exact ⟨hb.stepDispatcher, hy.senders⟩
  | worker k now =>
    refine ⟨?_, hy.senders⟩
    show (y.block.stepWorker (audited h) y.metrics k now y.world).1.Lined _
    rcases Block.stepWorker_cases h y.block y.metrics k now y.world with
      hstep | ⟨tally, ⟨v, -, hstep⟩ | hstep⟩
    · rw [hstep]
      exact hb
    · rw [hstep]
      exact ⟨hb.tickets, hb.nodup, hb.below, hb.full, hb.capacity⟩
    · rw [hstep]
      exact ⟨hb.tickets, hb.nodup, hb.below, hb.full, hb.capacity⟩
  | overruns k now =>
    show (y.overrun h k now).Lined
    rcases y.overrun_cases h k now with hstep | ⟨v, world, -, hstep⟩
    · rw [hstep]
      exact hy
    · rw [hstep]
      exact ⟨⟨hb.tickets, hb.nodup, hb.below, hb.full, hb.capacity⟩, hy.senders⟩
  | drain | shutdown | signals =>
    exact ⟨⟨hb.tickets, hb.nodup, hb.below, hb.full, hb.capacity⟩, hy.senders⟩

/-! ## Progress -/

/-- A yard in which someone goes on as long as there is something to do. -/
structure Manned (slots : ℕ) (y : Yard ι κ ω) : Prop where
  dispatching : ∃ events, y.Dispatching slots events
  lined : y.Lined
  slots : 0 < slots

variable {slots : ℕ}

/-- A new block is manned. -/
theorem Manned.new {name : String} {config : Config.Retrying} {b : Block (ℕ × ι) (ℕ × κ)}
    (hb : Block.new name config = .ok b) (world : ω) :
    (new b world).Manned (max 1 config.maxConcurrency) := by
  refine ⟨⟨[], Dispatching.new hb world⟩, ?_, lt_of_lt_of_le Nat.one_pos (le_max_left _ _)⟩
  obtain ⟨schedule, -, rfl⟩ := Block.new_eq hb
  exact ⟨⟨List.Perm.refl _, List.nodup_nil, nofun, fun hne => absurd rfl hne,
    lt_of_lt_of_le Nat.one_pos (le_max_right _ _)⟩, nofun⟩

/-- Every move leaves a yard manned. -/
theorem Manned.move (hy : y.Manned slots) (m : Move ι) : (y.move h m).Manned slots := by
  obtain ⟨events, hevents⟩ := hy.dispatching
  exact ⟨⟨_, hevents.move m⟩, hy.lined.move m, hy.slots⟩

/-- Any number of moves leaves a yard manned. -/
theorem Manned.play (hy : y.Manned slots) (ms : List (Move ι)) : (y.play h ms).Manned slots :=
  List.foldlRecOn ms (Yard.move h) hy fun _ hz m _ => hz.move m

/-- A worker is ready sooner or later. -/
theorem ready_of_workers (hworkers : y.block.workers ≠ []) : ∃ m, y.Ready m := by
  obtain ⟨⟨k, w⟩, rest, hsplit⟩ := List.exists_cons_of_ne_nil hworkers
  have hk : y.block.worker? k = some w := by
    rw [Block.worker?, hsplit]
    exact List.lookup_cons_self
  cases w with
  | starting item => exact ⟨.worker k 0, by simp [Ready, Block.workerWait, hk]⟩
  | resting item due =>
    refine ⟨.worker k due, ?_⟩
    simp [Ready, Block.workerWait, hk, Wait.either, Wait.till]
  | calling item call due =>
    refine ⟨.worker k due, ?_⟩
    simp [Ready, Block.workerWait, hk, Wait.till]

/-- The dispatcher that waits for a slot gets it, or waits for workers. -/
theorem Manned.ready_of_acquiring (hy : y.Manned slots) {item : Item (ℕ × ι)} {k : ℕ}
    (hdispatcher : y.block.dispatcher = .acquiring item k) : ∃ m, y.Ready m := by
  by_cases hk : k ∈ y.block.slots.holding
  · refine ⟨.dispatcher, ?_, fun hreceiving => ?_⟩
    · simp [Block.dispatcherWait, hdispatcher, hk, Wait.for]
    · rw [hdispatcher] at hreceiving
      cases hreceiving
  · obtain ⟨events, hevents⟩ := hy.dispatching
    have hpicked : y.block.picked = [(k, item.item.1)] := by rw [Block.picked, hdispatcher]
    have hbarred : y.block.barred ≠ [] := by simp [Block.barred, hpicked, hk]
    have hpassing : y.block.passing = [] := by simp [Block.passing, hpicked, hk]
    -- All slots are taken, by workers.
    have hfull := hevents.block.full hbarred
    have hlength := hevents.block.holders.length_eq
    have hslots := hy.slots
    rw [hpassing, List.map_nil, List.append_nil, List.length_map] at hlength
    exact ready_of_workers fun hnone => by
      rw [hnone, List.length_nil] at hlength
      omega

/-- Someone gets on with the items in the queue. -/
theorem Manned.ready_of_queue (hy : y.Manned slots) (hqueue : y.block.queue ≠ []) :
    ∃ m, y.Ready m := by
  obtain ⟨events, hevents⟩ := hy.dispatching
  have hclosed := hevents.wired.block.closed
  cases hdispatcher : y.block.dispatcher with
  | receiving =>
    refine ⟨.dispatcher, ?_, fun _ hempty => absurd hempty hqueue⟩
    simp [Block.dispatcherWait, hdispatcher, hqueue, Wait.for]
  | acquiring item k => exact hy.ready_of_acquiring hdispatcher
  | joining => exact absurd (hclosed (.inl hdispatcher)).1 hqueue
  | done => exact absurd (hclosed (.inr hdispatcher)).1 hqueue

/-- While a post has no answer, someone is ready sooner or later. -/
theorem Manned.ready_of_unanswered (hy : y.Manned slots) (hleft : ¬ y.Answered) :
    ∃ m, y.Ready m := by
  obtain ⟨p, hmem, hp⟩ : ∃ p ∈ y.posts, p.answer? = none := by
    by_contra hnone
    exact hleft fun p hp => Option.isSome_iff_ne_none.mpr fun heq => hnone ⟨p, hp, heq⟩
  obtain ⟨i, hi⟩ := List.mem_iff_getElem?.mp hmem
  cases p with
  | trying x => exact ⟨.poster i 0, _, hi, rfl⟩
  | sending item => exact ⟨.poster i 0, _, hi, rfl⟩
  | calling item call due => exact ⟨.poster i due, _, hi, by simp [Posting.wait, Wait.till]⟩
  | done outcome => cases hp
  | waiting item ticket =>
    have hline := hy.lined.block
    have hticket : ticket ∈ y.block.granted ++ y.block.line :=
      hline.tickets.mem_iff.mpr (List.mem_flatMap.mpr ⟨_, hmem, List.mem_singleton_self _⟩)
    by_cases hnone : y.block.granted = []
    · -- There is a line, so the queue is full.
      rw [hnone, List.nil_append] at hticket
      have hfull := hline.full (List.ne_nil_of_mem hticket)
      have hcapacity := hline.capacity
      refine hy.ready_of_queue fun hempty => ?_
      rw [hnone, hempty, List.length_nil, List.length_nil] at hfull
      omega
    · -- A place is kept for someone, who is ready to take it.
      obtain ⟨t, rest, hgranted⟩ := List.exists_cons_of_ne_nil hnone
      have ht : t ∈ y.block.granted := by rw [hgranted]; exact List.mem_cons_self
      obtain ⟨q, hq, hqt⟩ := List.mem_flatMap.mp
        (hline.tickets.mem_iff.mp (List.mem_append_left _ ht))
      obtain ⟨j, hj⟩ := List.mem_iff_getElem?.mp hq
      refine ⟨.poster j 0, q, hj, ?_⟩
      cases q with
      | waiting item' ticket' =>
        obtain rfl := List.mem_singleton.mp hqt
        simp [Posting.wait, Wait.for, ht]
      | trying | calling | sending | done => cases hqt

/-- While a closed block is not drained, someone is ready sooner or later. -/
theorem Manned.ready_of_undrained (hy : y.Manned slots) (hclosed : y.block.isOpen = false)
    (hleft : y.block.isDrained = false) : ∃ m, y.Ready m := by
  by_cases hanswered : y.Answered
  · by_cases hworkers : y.block.workers = []
    · cases hdispatcher : y.block.dispatcher with
      | receiving =>
        by_cases hqueue : y.block.queue = []
        · -- Nobody waits in the line, and nobody holds the queue.
          have htickets : y.posts.flatMap Posting.tickets = [] := by
            refine List.flatMap_eq_nil_iff.mpr fun p hp => ?_
            have hanswer := hanswered p hp
            cases p with
            | waiting => cases hanswer
            | trying | calling | sending | done => rfl
          have hline := hy.lined.block.tickets
          rw [htickets] at hline
          obtain ⟨hgranted, hline⟩ := List.append_eq_nil_iff.mp (List.perm_nil.mp hline)
          have hholding : y.holding = [] := by
            refine List.eq_nil_iff_forall_not_mem.mpr fun i hi => ?_
            obtain ⟨item, hitem⟩ := hy.lined.senders i hi
            cases hanswered _ (List.mem_of_getElem? hitem)
          refine ⟨.dispatcher, ?_, fun _ _ => hholding⟩
          simp [Block.dispatcherWait, hdispatcher, Block.isSealed, hclosed, hgranted, hline,
            Wait.for]
        · exact hy.ready_of_queue hqueue
      | acquiring item k => exact hy.ready_of_acquiring hdispatcher
      | joining =>
        refine ⟨.dispatcher, ?_, fun hreceiving => ?_⟩
        · simp [Block.dispatcherWait, hdispatcher, hworkers, Wait.for]
        · rw [hdispatcher] at hreceiving
          cases hreceiving
      | done =>
        rw [Block.isDrained, hdispatcher] at hleft
        cases hleft
    · exact ready_of_workers hworkers
  · exact hy.ready_of_unanswered hanswered

/-- The turn of whoever is ready leaves less to do. -/
theorem Manned.effort_lt (hy : y.Manned slots) {m : Move ι} (hm : y.Ready m) :
    (y.move h m).effort < y.effort := by
  obtain ⟨events, hevents⟩ := hy.dispatching
  cases m with
  | poster i now => exact effort_stepPoster hm (hy.lined.senders i)
  | dispatcher => exact effort_dispatcher hm
  | worker k now =>
    cases hk : y.block.worker? k with
    | none => simp [Ready, Block.workerWait, hk] at hm
    | some w => exact effort_stepWorker hevents.wired.block hk now
  | post | postAsync | holds | overruns | drain | shutdown | signals => exact hm.elim

/-- There are no more turns than there is to do. -/
theorem Manned.length_add_effort (hy : y.Manned slots) {later : List (Move ι)}
    (hlater : y.Turns h later) : later.length + (y.play h later).effort ≤ y.effort := by
  induction later generalizing y with
  | nil => exact Nat.le_of_eq (Nat.zero_add _)
  | cons m later ih =>
    obtain ⟨hm, hrest⟩ := hlater
    have hlt := hy.effort_lt (h := h) hm
    have hle := ih (hy.move m) hrest
    have hplay : y.play h (m :: later) = (y.move h m).play h later := rfl
    rw [hplay, List.length_cons]
    omega

/-- Once nobody is ready any more, every post has its answer, and the block is drained if it is
closed. -/
theorem Manned.ends (hy : y.Manned slots) (hnone : ∀ m, ¬ y.Ready m) :
    y.Answered ∧ (y.block.isOpen = false → y.block.isDrained = true) := by
  refine ⟨?_, fun hclosed => ?_⟩
  · by_contra hleft
    obtain ⟨m, hm⟩ := hy.ready_of_unanswered hleft
    exact hnone m hm
  · by_contra hleft
    obtain ⟨m, hm⟩ := hy.ready_of_undrained hclosed (Bool.eq_false_iff.mpr hleft)
    exact hnone m hm

end Yard

end Tidemark.Retry
