import Mathlib.Algebra.BigOperators.Group.Finset.Piecewise
import Tidemark.Proofs.Retry.Dispatch

/-!
# What is done for one item

What is done for an item can be seen from its handler and from the tally of its block: a call for it
begins, a worker begins to wait with it, or someone who has it counts something. These `Deed`s are
noted along the moves in a yard (`Yard.deeds`).

While someone has the item, its `Plight` says how far it has come. There is never more than one
(`Yard.Dispatching.bears_unique`). A move spares the item, begins to post it, turns it away, or is
the turn of whoever has it, and then the plight takes one step (`Plight.Step`). So what is done for
the item is a path of these steps, whoever makes them and whatever happens in between
(`Yard.Dispatching.fares`).
-/

namespace Tidemark.Retry

open scoped List

variable {ι κ ω : Type}

/-! ## Deeds -/

/-- Something that is done for an item. -/
inductive Deed where
  /-- A call of the handler begins. -/
  | calls (now : Moment)
  /-- A worker begins to wait. -/
  | rests (since due : Moment)
  /-- The item is counted as completed. -/
  | succeeds
  /-- A failed call is counted. -/
  | fails
  /-- The item is counted as exhausted. -/
  | exhausted
  /-- The item is counted as abandoned. -/
  | abandoned
  deriving DecidableEq

/-- What was counted between two tallies. -/
def Tally.since (t t' : Tally) : List Deed :=
  List.replicate (t'.completed - t.completed) .succeeds ++
    List.replicate (t'.failedAttempts - t.failedAttempts) .fails ++
      List.replicate (t'.exhausted - t.exhausted) .exhausted ++
        List.replicate (t'.abandoned - t.abandoned) .abandoned

/-- Nothing was counted. -/
@[simp] theorem Tally.since_self (t : Tally) : t.since t = [] := by simp [since]

/-- A worker that stands there begins to wait. -/
def Worker.rests (now : Moment) : Option (Worker ι κ) → List Deed
  | some (.resting _ due) => [.rests now due]
  | _ => []

/-- The moment of a move. -/
def Move.now : Move ι → Moment
  | .poster _ now | .worker _ now | .overruns _ now => now
  | _ => 0

namespace Yard

/-- The item of whoever makes a move. -/
def actor? (y : Yard ι κ ω) : Move ι → Option ℕ
  | .poster i _ => some i
  | .worker k _ | .overruns k _ => (y.block.worker? k).map (·.held.id)
  | _ => none

/-- The wait that a worker has begun with its turn. -/
def rests (m : Move ι) (y' : Yard ι κ ω) : List Deed :=
  match m with
  | .worker k now => Worker.rests now (y'.block.worker? k)
  | _ => []

/-- What is done for an item with a move: whoever has it counts something or begins to wait, and
calls begin. -/
def deeds (i : ℕ) (y : Yard ι κ ω) (m : Move ι) (y' : Yard ι κ ω) : List Deed :=
  (if y.actor? m = some i then y.block.tally.since y'.block.tally ++ rests m y' else []) ++
    List.replicate (y'.world.2.begun.count i - y.world.2.begun.count i) (.calls m.now)

end Yard

/-! ## Plights -/

/-- How far an item has come that someone has, after so many attempts. -/
inductive Plight (κ : Type) where
  /-- It waits for its first attempt, or for a worker that is to wait with it. -/
  | waiting (attempts : ℕ)
  /-- A call for it is under way, which counts among the attempts. -/
  | calling (attempts : ℕ) (call : κ)
  /-- A worker waits with it. -/
  | resting (attempts : ℕ) (due : Moment)

/-- The plight of the item that someone posts, until the post ends. -/
def Posting.plight? : Posting (ℕ × ι) (ℕ × κ) → Option (Plight κ)
  | .trying _ => some (.waiting 0)
  | .calling item call _ => some (.calling item.attempts call.2)
  | .sending item | .waiting item _ => some (.waiting item.attempts)
  | .done _ => none

/-- The plight of the item of a worker. -/
def Worker.plight : Worker (ℕ × ι) (ℕ × κ) → Plight κ
  | .starting item => .waiting item.attempts
  | .resting item due => .resting item.attempts due
  | .calling item call _ => .calling item.attempts call.2

/-- The plight of an item in the queue, or of the one that the dispatcher has, after its number. -/
def Item.queued (x : Item (ℕ × ι)) : ℕ × Plight κ := (x.item.1, .waiting x.attempts)

/-- The plight of the item of a worker, after its number. -/
def Worker.own (w : Worker (ℕ × ι) (ℕ × κ)) : ℕ × Plight κ := (w.held.id, w.plight)

/-- The plight of the item that the dispatcher has. -/
def Dispatcher.plights : Dispatcher (ℕ × ι) → List (ℕ × Plight κ)
  | .acquiring item _ => [item.queued]
  | _ => []

/-- The plights of the items in a block. -/
def Block.plights (b : Block (ℕ × ι) (ℕ × κ)) : List (ℕ × Plight κ) :=
  b.queue.map Item.queued ++ b.dispatcher.plights ++ b.workers.map (·.2.own)

/-- Someone has an item, which has come so far. -/
def Yard.Bears (y : Yard ι κ ω) (i : ℕ) (pl : Plight κ) : Prop :=
  (∃ p, y.posts[i]? = some p ∧ p.plight? = some pl) ∨ (i, pl) ∈ y.block.plights

/-- A step of the plight of an item, with what is done for it, as long as the block is not stopped.
There is no plight any more once nobody has the item. -/
inductive Plight.Step (h : Handler ι κ ω) (limit : ℕ) (schedule : Backoff) (now : Moment)
    (inner : ω) : Plight κ → List Deed → Option (Plight κ) → Prop where
  /-- The item changes hands. -/
  | waits {a : ℕ} : Step h limit schedule now inner (.waiting a) [] (some (.waiting a))
  /-- The first call begins. -/
  | begins (call : κ) :
    Step h limit schedule now inner (.waiting 0) [.calls now] (some (.calling 1 call))
  /-- A worker begins to wait before it makes an attempt after those of someone else. -/
  | rests {a : ℕ} (hspent : a ≠ 0) :
    Step h limit schedule now inner (.waiting a) [.rests now (now.wake (schedule.delayAfter a))]
      (some (.resting a (now.wake (schedule.delayAfter a))))
  /-- A further call begins. -/
  | resumes {a : ℕ} {due : Moment} (call : κ) :
    Step h limit schedule now inner (.resting a due) [.calls now] (some (.calling (a + 1) call))
  /-- A call succeeds. -/
  | succeeds {a : ℕ} {call : κ} (hends : (h.finish call now inner).1 = .ok ()) :
    Step h limit schedule now inner (.calling a call) [.succeeds] none
  /-- A call crashes. -/
  | crashes {a : ℕ} {call : κ} {cause : Crash}
    (hends : (h.finish call now inner).1 = .error (.crash cause)) :
    Step h limit schedule now inner (.calling a call) [] none
  /-- The last call fails. -/
  | exhausts {a : ℕ} {call : κ} {e : Error}
    (hends : (h.finish call now inner).1 = .error (.error e)) (hused : limit ≤ a) :
    Step h limit schedule now inner (.calling a call) [.fails, .exhausted] none
  /-- A call fails of someone who posts the item. -/
  | sends {a : ℕ} {call : κ} {e : Error} (hends : (h.finish call now inner).1 = .error (.error e))
    (hleft : a < limit) :
    Step h limit schedule now inner (.calling a call) [.fails] (some (.waiting a))
  /-- A call fails of a worker, which begins to wait. -/
  | fails {a : ℕ} {call : κ} {e : Error} (hends : (h.finish call now inner).1 = .error (.error e))
    (hleft : a < limit) :
    Step h limit schedule now inner (.calling a call)
      [.fails, .rests now (now.wake (schedule.delayAfter a))]
      (some (.resting a (now.wake (schedule.delayAfter a))))

/-- A worker makes the move that has waited, or was to wait, until `due`. -/
def Yard.Rouses (y : Yard ι κ ω) (m : Move ι) (due : Moment) : Prop :=
  ∃ k now item, (m = .worker k now ∨ m = .overruns k now) ∧
    y.block.worker? k = some (.resting item due)

/-- What a move means for an item, with what is done for it. -/
inductive Yard.Fares (h : Handler ι κ ω) (i : ℕ) (y : Yard ι κ ω) (m : Move ι) (y' : Yard ι κ ω) :
    List Deed → Prop where
  /-- The move spares the item. -/
  | spared (hposts : y'.posts[i]? = y.posts[i]?) (hbears : ∀ pl, y'.Bears i pl ↔ y.Bears i pl) :
    Fares h i y m y' []
  /-- Someone begins to post the item. -/
  | posted (hnew : i = y.posts.length) (hbears : ∀ pl, y'.Bears i pl ↔ pl = .waiting 0) :
    Fares h i y m y' []
  /-- The item is turned away. -/
  | turned (hgone : ∀ pl, ¬ y'.Bears i pl)
    (hanswer : y'.posts[i]? = some (.done (.error (.error .shutdown)))) : Fares h i y m y' []
  /-- Whoever has the item takes a turn. -/
  | acts {pl : Plight κ} {pl' : Option (Plight κ)} {deeds : List Deed} (hbears : y.Bears i pl)
    (hrouses : ∀ a due, pl = .resting a due → y.Rouses m due)
    (hstep : pl.Step h y.block.maximumAttempts y.block.schedule m.now y.world.1 deeds pl')
    (hbears' : ∀ q, y'.Bears i q ↔ pl' = some q) : Fares h i y m y' deeds

/-! ## Blocks -/

section Blocks

variable {b b' : Block (ℕ × ι) (ℕ × κ)}

/-- A worker among the workers of its block is known by its number. -/
theorem Block.worker?_of_mem (hkeys : (b.workers.map Prod.fst).Nodup) {k : ℕ}
    {w : Worker (ℕ × ι) (ℕ × κ)} (hw : (k, w) ∈ b.workers) : b.worker? k = some w := by
  obtain ⟨before, after, hworkers⟩ := List.append_of_mem hw
  refine List.lookup_eq_some_iff.mpr ⟨before, after, hworkers, fun x hx => ?_⟩
  rw [hworkers, List.map_append, List.map_cons, List.nodup_append] at hkeys
  have hne : x.1 ≠ k := hkeys.2.2 x.1 (List.mem_map_of_mem hx) k List.mem_cons_self
  simpa using hne.symm

/-- Where a worker stands that has gone on or ended. -/
theorem Block.worker?_goOn (hb : b.Wired) {k : ℕ} {w : Worker (ℕ × ι) (ℕ × κ)}
    (hk : b.worker? k = some w) (tally : Tally) (w' : Option (Worker (ℕ × ι) (ℕ × κ))) :
    (b.goOn k tally w').worker? k = w' := by
  obtain ⟨before, after, hworkers, hset, hend⟩ := Block.workers_split hb.keys hk
  have hkeys := hb.keys
  rw [hworkers, List.map_append, List.map_cons] at hkeys
  cases w' with
  | some v =>
    have hset : (b.goOn k tally (some v)).workers = before ++ (k, v) :: after := hset v
    have hkeys' : ((b.goOn k tally (some v)).workers.map Prod.fst).Nodup := by
      rw [hset, List.map_append, List.map_cons]
      exact hkeys
    exact Block.worker?_of_mem hkeys' (by rw [hset]; simp)
  | none =>
    have hend : (b.goOn k tally none).workers = before ++ after := hend
    have hgone : k ∉ (before ++ after).map Prod.fst := by
      rw [List.map_append]
      exact (List.nodup_middle.mp hkeys).notMem
    rw [Block.worker?, hend, List.lookup_eq_none_iff]
    intro x hx
    have hne : x.1 ≠ k := fun heq => hgone (heq ▸ List.mem_map_of_mem hx)
    simpa using hne.symm

/-- The plight of the item of a worker among those in its block, before and after its turn. -/
theorem Block.plights_worker (hb : b.Wired) {k : ℕ} {w : Worker (ℕ × ι) (ℕ × κ)}
    (hk : b.worker? k = some w) :
    ∃ others, b.plights.Perm (w.own :: others) ∧ ∀ tally w',
      (b.goOn k tally w').plights.Perm (w'.toList.map Worker.own ++ others) := by
  obtain ⟨before, after, hworkers, hset, hend⟩ := Block.workers_split hb.keys hk
  have hplace (v : Worker (ℕ × ι) (ℕ × κ)) :
      { b with workers := before ++ (k, v) :: after }.plights.Perm
        (v.own :: { b with workers := before ++ after }.plights) := by
    unfold plights
    rw [List.map_append, List.map_cons, List.map_append, ← List.append_assoc, ← List.append_assoc]
    exact List.perm_middle
  refine ⟨{ b with workers := before ++ after }.plights, ?_, fun tally w' => ?_⟩
  · have hself : { b with workers := before ++ (k, w) :: after } = b := by rw [← hworkers]
    have hperm := hplace w
    rwa [hself] at hperm
  · cases w' with
    | some v =>
      have hset : (b.goOn k tally (some v)).workers = before ++ (k, v) :: after := hset v
      have hsame : (b.goOn k tally (some v)).plights =
          { b with workers := before ++ (k, v) :: after }.plights := by
        rw [plights, hset]
        rfl
      rw [hsame]
      exact hplace v
    | none =>
      have hend : (b.goOn k tally none).workers = before ++ after := hend
      have hsame : (b.goOn k tally none).plights = { b with workers := before ++ after }.plights := by
        rw [plights, hend]
        rfl
      rw [hsame]
      exact List.Perm.refl _

/-- The dispatcher moves an item at most. -/
theorem Block.plights_stepDispatcher (b : Block (ℕ × ι) (ℕ × κ)) :
    b.stepDispatcher.plights.Perm b.plights := by
  rcases b.stepDispatcher_cases with hstep | ⟨item, rest, line, granted, hdispatcher, hqueue, hstep⟩ |
    ⟨hdispatcher, hqueue, -, hstep⟩ | ⟨item, k, hdispatcher, -, hstep⟩ | ⟨hdispatcher, -, hstep⟩
  · rw [hstep]
  · rw [hstep, plights, plights, hdispatcher, hqueue]
    exact List.perm_middle.append_right _
  · rw [hstep, plights, plights, hdispatcher, hqueue]
    exact List.Perm.refl _
  · -- The item stands before the workers first, and is the last one among them then.
    have hlast : (b.workers.map (·.2.own) ++ [(item.queued : ℕ × Plight κ)]).Perm
        ([item.queued] ++ b.workers.map (·.2.own)) := List.perm_append_comm
    rw [hstep, plights, plights, hdispatcher, List.map_append, List.append_assoc, List.append_assoc]
    exact hlast.append_left _
  · rw [hstep, plights, plights, hdispatcher]
    exact List.Perm.refl _

/-- The items in a block and those whose workers have ended are the items that have entered. -/
theorem Block.Dispatched.plights_perm {limit : ℕ} {events : List Event}
    (hb : b.Dispatched limit events) :
    (Event.entered events).Perm (Event.ended events ++ b.plights.map Prod.fst) := by
  have hpicked : (b.dispatcher.plights : List (ℕ × Plight κ)).map Prod.fst =
      b.passing.map Prod.snd ++ b.barred.map Prod.snd := by
    rcases b.picked_cases with
      ⟨hnone, hpassing, hbarred⟩ | ⟨item, k, hdispatcher, -, ⟨-, hpassing, hbarred⟩ |
        ⟨-, hpassing, hbarred⟩⟩
    · rw [hpassing, hbarred]
      rcases hdispatcher : b.dispatcher with _ | ⟨item, k⟩ | _ | _
      case acquiring => simp [picked, hdispatcher] at hnone
      all_goals rfl
    · rw [hpassing, hbarred, hdispatcher]
      rfl
    · rw [hpassing, hbarred, hdispatcher]
      rfl
  have hids : b.plights.map Prod.fst = b.queue.map (·.item.1) ++
      (b.passing.map Prod.snd ++ b.barred.map Prod.snd) ++ b.workers.map (·.2.held.id) := by
    rw [plights, List.map_append, List.map_append, hpicked, List.map_map, List.map_map]
    rfl
  rw [hids, hb.order]
  have hhands := (hb.hands.append_right (b.barred.map Prod.snd)).append_right
    (b.queue.map (·.item.1))
  refine hhands.trans ?_
  rw [inHand]
  simp only [List.append_assoc]
  refine List.Perm.append_left _ ?_
  -- The workers come first on the one side, and the queue on the other.
  generalize b.workers.map (·.2.held.id) = working
  generalize b.passing.map Prod.snd = passing
  generalize b.barred.map Prod.snd = barred
  generalize b.queue.map (·.item.1) = queued
  calc working ++ (passing ++ (barred ++ queued))
      = (working ++ (passing ++ barred)) ++ queued := by simp only [List.append_assoc]
    _ ~ queued ++ (working ++ (passing ++ barred)) := List.perm_append_comm
    _ ~ queued ++ ((passing ++ barred) ++ working) := List.perm_append_comm.append_left _
    _ = queued ++ (passing ++ (barred ++ working)) := by simp only [List.append_assoc]

end Blocks

/-! ## Turns -/

/-- A call of the item is one of its calls. -/
theorem Record.count_begins (r : Record) (i : ℕ) :
    (r.begins i).begun.count i - r.begun.count i = 1 := by
  have hcount : (r.begins i).begun.count i = r.begun.count i + 1 := List.count_cons_self
  omega

/-- The turn of a worker is a step of the plight of its item. -/
theorem Worker.Turn.step {h : Handler ι κ ω} {b : Block (ℕ × ι) (ℕ × κ)} {now : Moment}
    {world world' : ω × Record} {w : Worker (ℕ × ι) (ℕ × κ)} {tally : Tally}
    {w' : Option (Worker (ℕ × ι) (ℕ × κ))} (hw : w.Turn h b now world tally world' w')
    (hgoing : b.stopping = false) :
    w.plight.Step h b.maximumAttempts b.schedule now world.1
      (b.tally.since tally ++ Worker.rests now w' ++ List.replicate
        (world'.2.begun.count w.held.id - world.2.begun.count w.held.id) (.calls now))
      (w'.map Worker.plight) := by
  -- No call begins in a turn that ends one.
  have hnone (id id' : ℕ) (outcome : Outcome Unit) :
      (world.2.ends id outcome).begun.count id' - world.2.begun.count id' = 0 := by
    rw [Record.begun_ends, Nat.sub_self]
  cases hw with
  | begins hfresh call due inner =>
    simp only [Tally.since_self, Worker.rests, Worker.held, Item.held, Record.count_begins,
      Worker.plight, Option.map_some, hfresh]
    exact .begins call
  | resumes _ call due' inner =>
    simp only [Tally.since_self, Worker.rests, Worker.held, Item.held, Record.count_begins,
      Worker.plight, Option.map_some]
    exact .resumes call
  | rests hspent =>
    simp only [Tally.since_self, Worker.rests, Nat.sub_self, Worker.plight, Option.map_some]
    exact .rests hspent
  | turnsAway _ hstopped | abandons hstopped | givesUp _ _ hstopped =>
    rw [hgoing] at hstopped
    cases hstopped
  | succeeds hfinish =>
    simp only [hnone, Tally.since, Nat.sub_self, Nat.add_sub_cancel_left]
    exact .succeeds (by rw [hfinish])
  | crashes hfinish =>
    simp only [Tally.since_self, Nat.sub_self]
    exact .crashes (by rw [hfinish])
  | exhausts hfinish hused =>
    simp only [hnone, Tally.since, Nat.sub_self, Nat.add_sub_cancel_left]
    exact .exhausts (by rw [hfinish]) hused
  | fails hfinish hleft =>
    simp only [hnone, Tally.since, Nat.sub_self, Nat.add_sub_cancel_left]
    exact .fails (by rw [hfinish]) hleft

/-- Whoever sends an item to the queue counts nothing, and leaves the schedule alone. -/
theorem Posting.send_keeps (b : Block ι κ) (item : Item ι) :
    (send b item).2.tally = b.tally ∧ (send b item).2.schedule = b.schedule := by
  rcases send_cases b item with ⟨hsend, -⟩ | ⟨hsend, -⟩ | ⟨hsend, -⟩
  · rw [hsend]
    exact ⟨rfl, rfl⟩
  · rw [hsend]
    exact ⟨rfl, rfl⟩
  · rw [hsend]
    exact ⟨rfl, rfl⟩

/-- Whoever posts an item begins no call but for this item. -/
theorem Posting.Turn.begun {h : Handler ι κ ω} {b b' : Block (ℕ × ι) (ℕ × κ)} {now : Moment}
    {world world' : ω × Record} {p q : Posting (ℕ × ι) (ℕ × κ)} {i : ℕ}
    (hp : p.Turn h b now world b' world' q) (hof : p.Of i) :
    world'.2.begun = world.2.begun ∨ world'.2.begun = i :: world.2.begun := by
  cases hp with
  | begins => exact .inr (congrArg (· :: world.2.begun) hof)
  | succeeds | exhausts | fails => exact .inl (world.2.begun_ends _ _)
  | turned | crashes | sends | enters | waits | ended => exact .inl rfl

namespace Yard

variable {limit : ℕ} {h : Handler ι κ ω} {y y' : Yard ι κ ω} {events : List Event} {i : ℕ}

/-- The items in the block are there once, and their posts have ended. -/
theorem Dispatching.plights_inside (hy : y.Dispatching limit events) :
    (y.block.plights.map Prod.fst).Nodup ∧
      ∀ i pl, (i, pl) ∈ y.block.plights → ∃ outcome, y.posts[i]? = some (.done outcome) := by
  have hperm := hy.block.plights_perm
  refine ⟨(List.nodup_append.mp (hperm.nodup hy.nodup)).2.1, fun i pl hpl => hy.inside i ?_⟩
  exact hperm.mem_iff.mpr (List.mem_append_right _ (List.mem_map_of_mem hpl))

/-- The item of a post that has not ended is not in the block. -/
theorem Dispatching.outside (hy : y.Dispatching limit events) {p : Posting (ℕ × ι) (ℕ × κ)}
    (hp : y.posts[i]? = some p) (hgoing : p.answer? = none) (pl : Plight κ) :
    (i, pl) ∉ y.block.plights := fun hpl => by
  obtain ⟨outcome, hdone⟩ := hy.plights_inside.2 i pl hpl
  obtain rfl : p = .done outcome := Option.some.inj (hp.symm.trans hdone)
  cases hgoing

/-- Nobody has an item that was not posted. -/
theorem Dispatching.not_bears (hy : y.Dispatching limit events) (hi : y.posts[i]? = none)
    (pl : Plight κ) : ¬ y.Bears i pl := by
  rintro (⟨p, hp, -⟩ | hpl)
  · rw [hi] at hp
    cases hp
  · obtain ⟨outcome, hdone⟩ := hy.plights_inside.2 i pl hpl
    rw [hi] at hdone
    cases hdone

/-- An item has come only so far. -/
theorem Dispatching.bears_unique (hy : y.Dispatching limit events) {pl pl' : Plight κ}
    (hpl : y.Bears i pl) (hpl' : y.Bears i pl') : pl = pl' := by
  have hgoing {p : Posting (ℕ × ι) (ℕ × κ)} {q : Plight κ} (hq : p.plight? = some q) :
      p.answer? = none := by
    cases p with
    | done outcome => cases hq
    | trying | calling | sending | waiting => rfl
  rcases hpl with ⟨p, hp, hplight⟩ | hpl
  · rcases hpl' with ⟨p', hp', hplight'⟩ | hpl'
    · obtain rfl : p = p' := Option.some.inj (hp.symm.trans hp')
      exact Option.some.inj (hplight.symm.trans hplight')
    · exact absurd hpl' (hy.outside hp (hgoing hplight) pl')
  · rcases hpl' with ⟨p', hp', hplight'⟩ | hpl'
    · exact absurd hpl (hy.outside hp' (hgoing hplight') pl)
    · have heq := List.inj_on_of_nodup_map hy.plights_inside.1 hpl hpl' rfl
      exact congrArg Prod.snd heq

/-! ### Moves that spare an item -/

/-- Where neither the post of an item has changed nor its plight in the block, it has come as far as
before. -/
theorem bears_congr (hposts : y'.posts[i]? = y.posts[i]?)
    (hplights : ∀ pl, (i, pl) ∈ y'.block.plights ↔ (i, pl) ∈ y.block.plights) (pl : Plight κ) :
    y'.Bears i pl ↔ y.Bears i pl := by
  unfold Bears
  rw [hposts, hplights]

/-- Nothing is done for an item with the turn of someone else. -/
theorem deeds_eq_nil {m : Move ι} (hactor : y.actor? m ≠ some i)
    (hbegun : y'.world.2.begun.count i = y.world.2.begun.count i) : deeds i y m y' = [] := by
  unfold deeds
  rw [if_neg hactor, hbegun, Nat.sub_self]
  rfl

/-- What is done for an item with the turn of whoever has it. -/
theorem deeds_of_actor {m : Move ι} (hactor : y.actor? m = some i) :
    deeds i y m y' = y.block.tally.since y'.block.tally ++ rests m y' ++
      List.replicate (y'.world.2.begun.count i - y.world.2.begun.count i) (.calls m.now) := by
  unfold deeds
  rw [if_pos hactor]

/-! ### Posts -/

/-- Someone begins to post an item. -/
theorem Dispatching.fares_posts (hy : y.Dispatching limit events) {p : Posting (ℕ × ι) (ℕ × κ)}
    (hp : p.plight? = some (.waiting 0)) {m : Move ι} (hm : y.actor? m = none) :
    Fares h i y m { y with posts := y.posts ++ [p] }
      (deeds i y m { y with posts := y.posts ++ [p] }) := by
  have hnone : deeds i y m { y with posts := y.posts ++ [p] } = [] :=
    deeds_eq_nil (by rw [hm]; nofun) rfl
  rw [hnone]
  by_cases hi : i = y.posts.length
  · refine .posted hi fun pl => ?_
    subst hi
    have hnew : (y.posts ++ [p])[y.posts.length]? = some p := List.getElem?_concat_length
    constructor
    · rintro (⟨q, hq, hplight⟩ | hpl)
      · obtain rfl : p = q := Option.some.inj (hnew.symm.trans hq)
        exact (Option.some.inj (hp.symm.trans hplight)).symm
      · exact absurd (.inr hpl) (hy.not_bears (List.getElem?_eq_none (le_refl _)) pl)
    · rintro rfl
      exact .inl ⟨p, hnew, hp⟩
  · have hposts : (y.posts ++ [p])[i]? = y.posts[i]? := by
      rw [List.getElem?_append]
      split_ifs with hlt
      · rfl
      · rw [List.getElem?_eq_none (not_lt.mp hlt)]
        exact List.getElem?_eq_none (by simp only [List.length_singleton]; omega)
    exact .spared hposts (bears_congr hposts fun _ => Iff.rfl)

/-- How far an item has come after a step of its post. -/
theorem bears_set (hi : i < y.posts.length) {q : Posting (ℕ × ι) (ℕ × κ)}
    (hposts : y'.posts = y.posts.set i q) (pl : Plight κ) :
    y'.Bears i pl ↔ q.plight? = some pl ∨ (i, pl) ∈ y'.block.plights := by
  unfold Bears
  rw [hposts, List.getElem?_set_self hi]
  simp

/-- Someone sends an item to the queue, whether the block is taken for open (`o`) or not. -/
theorem Dispatching.fares_send (hy : y.Dispatching limit events) {item : Item (ℕ × ι)}
    (hp : y.posts[i]? = some (.sending item)) (hof : item.item.1 = i) (o : Bool) {m : Move ι}
    (hposts : y'.posts = y.posts.set i (Posting.send { y.block with isOpen := o } item).1)
    (hplights : y'.block.plights = (Posting.send { y.block with isOpen := o } item).2.plights) :
    Fares h i y m y' [] := by
  have hi : i < y.posts.length := (List.getElem?_eq_some_iff.mp hp).1
  have hout (pl : Plight κ) : (i, pl) ∉ y.block.plights := hy.outside hp rfl pl
  have hbefore : y.Bears i (.waiting item.attempts) := .inl ⟨_, hp, rfl⟩
  have hafter (pl : Plight κ) := bears_set hi hposts pl
  rw [hplights] at hafter
  rcases Posting.send_cases { y.block with isOpen := o } item with
    ⟨hsend, -⟩ | ⟨hsend, -⟩ | ⟨hsend, -⟩
  · rw [hsend] at hafter hposts
    refine .turned (fun pl hpl => ?_) (by rw [hposts]; exact List.getElem?_set_self hi)
    rcases (hafter pl).mp hpl with hpl | hpl
    · cases hpl
    · exact hout pl hpl
  · -- The item is the last one in the queue then, and the post has ended.
    rw [hsend] at hafter
    refine .acts hbefore nofun .waits fun pl => (hafter pl).trans ?_
    have hqueued : (i, pl) ∈ (Block.push { y.block with isOpen := o } item).plights ↔
        (i, pl) = item.queued ∨ (i, pl) ∈ y.block.plights := by
      simp only [Block.plights, Block.push, List.map_append, List.map_cons, List.map_nil,
        List.mem_append, List.mem_singleton]
      tauto
    rw [hqueued]
    simp [Posting.plight?, hout pl, Item.queued, hof, eq_comm]
  · rw [hsend] at hafter
    refine .acts hbefore nofun .waits fun pl => (hafter pl).trans ?_
    have hsame : (i, pl) ∉ ({ y.block with
        isOpen := o, line := y.block.line ++ [y.block.nextTicket],
        nextTicket := y.block.nextTicket + 1 } : Block (ℕ × ι) (ℕ × κ)).plights := hout pl
    simp [Posting.plight?, hsame]

/-- Whoever posts an item takes a turn. -/
theorem Dispatching.fares_turn (hy : y.Dispatching limit events) {now : Moment}
    {p q : Posting (ℕ × ι) (ℕ × κ)} {world' : ω × Record} (hp : y.posts[i]? = some p)
    (hof : p.Of i) (hturn : p.Turn h y.block now y.world y'.block world' q)
    (hposts : y'.posts = y.posts.set i q) (hworld : y'.world = world') :
    Fares h i y (.poster i now) y' (deeds i y (.poster i now) y') := by
  have hi : i < y.posts.length := (List.getElem?_eq_some_iff.mp hp).1
  have hafter (pl : Plight κ) := bears_set hi hposts pl
  have hout (hgoing : p.answer? = none) (pl : Plight κ) : (i, pl) ∉ y.block.plights :=
    hy.outside hp hgoing pl
  -- A post whose item does not get into the queue has it as long as it goes on.
  have hkept (hgoing : p.answer? = none) (hplights : y'.block.plights = y.block.plights)
      (pl : Plight κ) : y'.Bears i pl ↔ q.plight? = some pl := by
    rw [hafter, hplights]
    exact or_iff_left (hout hgoing pl)
  have hdeeds : deeds i y (.poster i now) y' = y.block.tally.since y'.block.tally ++
      List.replicate (y'.world.2.begun.count i - y.world.2.begun.count i) (.calls now) := by
    have hrests : rests (.poster i now) y' = [] := rfl
    rw [deeds_of_actor rfl, hrests, List.append_nil]
    rfl
  have hnone (id : ℕ) (outcome : Outcome Unit) :
      (y.world.2.ends id outcome).begun.count i - y.world.2.begun.count i = 0 := by
    rw [Record.begun_ends, Nat.sub_self]
  rw [hdeeds, hworld]
  generalize hb : y'.block = b' at hturn hkept hafter
  cases hturn with
  | begins hopen call due inner =>
    obtain rfl : _ = i := hof
    rw [Tally.since_self, Record.count_begins]
    exact .acts (.inl ⟨_, hp, rfl⟩) nofun (.begins call) fun pl => hkept rfl rfl pl
  | turned =>
    rw [Tally.since_self, Nat.sub_self]
    refine .turned (fun pl hpl => ?_) (by rw [hposts]; exact List.getElem?_set_self hi)
    cases (hkept rfl rfl pl).mp hpl
  | succeeds hfinish =>
    rw [hnone]
    simp only [Tally.since, Nat.sub_self, Nat.add_sub_cancel_left]
    exact .acts (.inl ⟨_, hp, rfl⟩) nofun (.succeeds (congrArg Prod.fst hfinish)) fun pl => hkept rfl rfl pl
  | crashes hfinish =>
    rw [Tally.since_self, Nat.sub_self]
    exact .acts (.inl ⟨_, hp, rfl⟩) nofun (.crashes (congrArg Prod.fst hfinish)) fun pl => hkept rfl rfl pl
  | exhausts hfinish hused =>
    rw [hnone]
    simp only [Tally.since, Nat.sub_self, Nat.add_sub_cancel_left]
    exact .acts (.inl ⟨_, hp, rfl⟩) nofun (.exhausts (congrArg Prod.fst hfinish) hused) fun pl => hkept rfl rfl pl
  | fails hfinish hleft =>
    rw [hnone]
    simp only [Tally.since, Nat.sub_self, Nat.add_sub_cancel_left]
    exact .acts (.inl ⟨_, hp, rfl⟩) nofun (.sends (congrArg Prod.fst hfinish) hleft) fun pl => hkept rfl rfl pl
  | @sends item =>
    rw [(Posting.send_keeps y.block item).1, Tally.since_self, Nat.sub_self]
    exact hy.fares_send hp hof y.block.isOpen hposts (by rw [hb])
  | @enters item ticket hgranted =>
    obtain rfl : _ = i := hof
    rw [Nat.sub_self]
    simp only [Block.push, Tally.since_self]
    refine .acts (.inl ⟨_, hp, rfl⟩) nofun .waits fun pl => (hafter pl).trans ?_
    have hqueued : (item.item.1, pl) ∈
        (Block.push { y.block with granted := y.block.granted.filter (· ≠ ticket) } item).plights ↔
          (item.item.1, pl) = item.queued ∨ (item.item.1, pl) ∈ y.block.plights := by
      simp only [Block.plights, Block.push, List.map_append, List.map_cons, List.map_nil,
        List.mem_append, List.mem_singleton]
      tauto
    rw [hqueued]
    simp [Posting.plight?, hout rfl pl, Item.queued, eq_comm]
  | waits =>
    rw [Tally.since_self, Nat.sub_self]
    exact .acts (.inl ⟨_, hp, rfl⟩) nofun .waits fun pl => hkept rfl rfl pl
  | ended =>
    rw [Tally.since_self, Nat.sub_self]
    have hsame : y'.posts[i]? = y.posts[i]? := by
      rw [hposts, List.getElem?_set_self hi, hp]
    exact .spared hsame (bears_congr hsame fun _ => by rw [hb])

/-- Someone who posts an item begins no call but for this item. -/
theorem Wired.begun_stepPoster (hy : y.Wired) (h : Handler ι κ ω) (j : ℕ) (now : Moment) :
    (y.stepPoster h j now).world.2.begun = y.world.2.begun ∨
      (y.stepPoster h j now).world.2.begun = j :: y.world.2.begun := by
  rcases y.stepPoster_cases h j now with hstep | ⟨p, hp, -, hstep⟩ | ⟨item, hp, -, hstep⟩
  · exact .inl (by rw [hstep])
  · have hof := hy.posts j p hp
    have hturn := p.step_turn h y.block y.metrics now y.world
    rw [hstep]
    exact hturn.begun hof
  · exact .inl (by rw [hstep])

/-- Whoever posts another item spares this one. -/
theorem Wired.fares_other (hy : y.Wired) {j : ℕ} (hij : j ≠ i) (now : Moment) :
    Fares h i y (.poster j now) (y.stepPoster h j now)
      (deeds i y (.poster j now) (y.stepPoster h j now)) := by
  have hbegun : (y.stepPoster h j now).world.2.begun.count i = y.world.2.begun.count i := by
    rcases hy.begun_stepPoster h j now with hsame | hcons
    · rw [hsame]
    · rw [hcons, List.count_cons_of_ne hij]
  have hactor : y.actor? (.poster j now) ≠ some i := by simpa [actor?] using hij
  obtain ⟨hsame, hqueue⟩ := y.stepPoster_hands h j now
  rw [deeds_eq_nil hactor hbegun]
  have hposts := (y.stepPoster_frame h j now).1 i hij.symm
  refine .spared hposts (bears_congr hposts fun pl => ?_)
  unfold Block.plights
  rw [hsame.dispatcher, hsame.workers]
  rcases hqueue with hqueue | ⟨p, item, hp, hready, -, hqueue⟩
  · rw [hqueue]
  · -- What gets into the queue is the other item.
    have hitem : item.item.1 = j := by
      have hof := hy.posts j p hp
      rcases hready with rfl | ⟨ticket, rfl⟩
      · exact hof
      · exact hof
    have hne : (i, pl) ≠ item.queued := fun heq => hij (by
      rw [← hitem]
      exact (congrArg Prod.fst heq).symm)
    rw [hqueue]
    simp [hne]

/-- Whoever has their turn to post an item takes it. -/
theorem Dispatching.fares_stepPoster (hy : y.Dispatching limit events) (i j : ℕ) (now : Moment) :
    Fares h i y (.poster j now) (y.stepPoster h j now)
      (deeds i y (.poster j now) (y.stepPoster h j now)) := by
  by_cases hij : j = i
  · subst hij
    generalize hy' : y.stepPoster h j now = y'
    rcases y.stepPoster_cases h j now with hstep | ⟨p, hp, -, hstep⟩ | ⟨item, hp, -, hstep⟩
    · obtain rfl : y' = y := hy'.symm.trans hstep
      rw [deeds_of_actor rfl, Tally.since_self, Nat.sub_self]
      exact .spared rfl fun _ => Iff.rfl
    · have hblock : y'.block = (p.step (audited h) y.block y.metrics now y.world).2.1 := by
        rw [← hy', hstep]
      have hworld : y'.world = (p.step (audited h) y.block y.metrics now y.world).2.2.2 := by
        rw [← hy', hstep]
      have hposts : y'.posts =
          y.posts.set j (p.step (audited h) y.block y.metrics now y.world).1 := by
        rw [← hy', hstep]
      have hturn : p.Turn h y.block now y.world y'.block y'.world
          (p.step (audited h) y.block y.metrics now y.world).1 := by
        rw [hblock, hworld]
        exact p.step_turn h y.block y.metrics now y.world
      exact hy.fares_turn hp (hy.wired.posts j p hp) hturn hposts rfl
    · have hplights : y'.block.plights =
          (Posting.send { y.block with isOpen := true } item).2.plights := by
        rw [← hy', hstep]
        rfl
      have htally : y'.block.tally = y.block.tally := by
        rw [← hy', hstep]
        exact (Posting.send_keeps { y.block with isOpen := true } item).1
      have hworld : y'.world = y.world := by rw [← hy', hstep]
      have hrests : rests (.poster j now) y' = [] := rfl
      rw [deeds_of_actor rfl, htally, hworld, Tally.since_self, Nat.sub_self, hrests]
      exact hy.fares_send hp (hy.wired.posts j _ hp) true (by rw [← hy', hstep]) hplights
  · exact hy.wired.fares_other hij now

/-! ### Workers -/

/-- How far the items have come after the turn of a worker. -/
theorem Dispatching.bears_goOn (hy : y.Dispatching limit events) {k : ℕ}
    {w : Worker (ℕ × ι) (ℕ × κ)} (hk : y.block.worker? k = some w) {tally : Tally}
    {w' : Option (Worker (ℕ × ι) (ℕ × κ))} (hkeeps : ∀ v, w' = some v → v.held.id = w.held.id)
    (hposts : y'.posts = y.posts) (hblock : y'.block = y.block.goOn k tally w') :
    y.Bears w.held.id w.plight ∧
      (∀ pl, y'.Bears w.held.id pl ↔ w'.map Worker.plight = some pl) ∧
        ∀ i, i ≠ w.held.id → ∀ pl, y'.Bears i pl ↔ y.Bears i pl := by
  obtain ⟨others, hbefore, hafter⟩ := Block.plights_worker hy.wired.block hk
  have hafter := hafter tally w'
  rw [← hblock] at hafter
  have hself : (w.held.id, w.plight) ∈ y.block.plights := hbefore.mem_iff.mpr List.mem_cons_self
  obtain ⟨hnodup, hdone⟩ := hy.plights_inside
  obtain ⟨outcome, hpost⟩ := hdone _ _ hself
  -- The item has no other plight in the block.
  have hothers (pl : Plight κ) : (w.held.id, pl) ∉ others := fun hmem => by
    have hkeys := (hbefore.map Prod.fst).nodup hnodup
    rw [List.map_cons, List.nodup_cons] at hkeys
    exact hkeys.1 (List.mem_map.mpr ⟨_, hmem, rfl⟩)
  refine ⟨.inr hself, fun pl => ?_, fun i hi pl => bears_congr (by rw [hposts]) (fun q => ?_) pl⟩
  · have hblock' : (w.held.id, pl) ∈ y'.block.plights ↔ w'.map Worker.plight = some pl := by
      rw [hafter.mem_iff, List.mem_append]
      cases w' with
      | none => simp [hothers pl]
      | some v => simp [hothers pl, Worker.own, hkeeps v rfl, eq_comm]
    unfold Bears
    rw [hposts, hblock', hpost]
    simp [Posting.plight?]
  · rw [hafter.mem_iff, hbefore.mem_iff, List.mem_append, List.mem_cons]
    cases w' with
    | none => simp [Worker.own, hi]
    | some v => simp [Worker.own, hi, hkeeps v rfl]

/-- A worker takes a turn. -/
theorem Dispatching.fares_stepWorker (hy : y.Dispatching limit events)
    (hgoing : y.block.stopping = false) (i k : ℕ) (now : Moment) :
    Fares h i y (.worker k now) (y.stepWorker h k now)
      (deeds i y (.worker k now) (y.stepWorker h k now)) := by
  cases hk : y.block.worker? k with
  | none =>
    have hstep : y.stepWorker h k now = y := by
      unfold stepWorker Block.stepWorker
      simp only [hk]
    have hactor : y.actor? (.worker k now) ≠ some i := by simp [actor?, hk]
    rw [hstep, deeds_eq_nil hactor rfl]
    exact .spared rfl fun _ => Iff.rfl
  | some w =>
    obtain ⟨tally, w', hturn, hblock⟩ := Block.stepWorker_turn h y.metrics hk now y.world
    generalize hy' : y.stepWorker h k now = y'
    have hposts : y'.posts = y.posts := by rw [← hy']; rfl
    have hblock : y'.block = y.block.goOn k tally w' := by rw [← hy']; exact hblock
    have hworld : (y.block.stepWorker (audited h) y.metrics k now y.world).2.2 = y'.world := by
      rw [← hy']
      rfl
    rw [hworld] at hturn
    have hkeeps (v : Worker (ℕ × ι) (ℕ × κ)) (hv : w' = some v) : v.held.id = w.held.id := by
      subst hv
      exact hturn.keeps.2
    have hactor : y.actor? (.worker k now) = some w.held.id := by simp [actor?, hk]
    obtain ⟨hbefore, hafter, hothers⟩ := hy.bears_goOn hk hkeeps hposts hblock
    by_cases hi : i = w.held.id
    · subst hi
      have hwork : y'.block.worker? k = w' := by
        rw [hblock]
        exact Block.worker?_goOn hy.wired.block hk tally w'
      have htally : y'.block.tally = tally := by
        rw [hblock]
        cases w' <;> rfl
      have hrouses (a : ℕ) (due : Moment) (hdue : w.plight = .resting a due) :
          y.Rouses (.worker k now) due := by
        cases w with
        | resting item due' =>
          obtain ⟨-, rfl⟩ := Plight.resting.inj hdue
          exact ⟨k, now, item, .inl rfl, hk⟩
        | starting | calling => cases hdue
      rw [deeds_of_actor hactor]
      refine .acts hbefore hrouses ?_ hafter
      have hstep := hturn.step hgoing
      rw [← htally, ← hwork] at hstep
      rw [← hwork]
      exact hstep
    · have hbegun : y'.world.2.begun.count i = y.world.2.begun.count i := by
        have hcases : y'.world.2.begun = y.world.2.begun ∨
            y'.world.2.begun = w.held.id :: y.world.2.begun := by
          cases w' with
          | none => exact .inl hturn.ends_of_none.1
          | some v => exact hturn.begun_of_some
        rcases hcases with hsame | hcons
        · rw [hsame]
        · rw [hcons, List.count_cons_of_ne (Ne.symm hi)]
      rw [deeds_eq_nil (by rw [hactor]; simpa using Ne.symm hi) hbegun]
      exact .spared (by rw [hposts]) (hothers i hi)

/-- A worker begins a further attempt after all. -/
theorem Dispatching.fares_overrun (hy : y.Dispatching limit events) (i k : ℕ) (now : Moment) :
    Fares h i y (.overruns k now) (y.overrun h k now)
      (deeds i y (.overruns k now) (y.overrun h k now)) := by
  have hidle : Fares h i y (.overruns k now) y (deeds i y (.overruns k now) y) := by
    have hnone : deeds i y (.overruns k now) y = [] := by
      unfold deeds rests
      simp
    rw [hnone]
    exact .spared rfl fun _ => Iff.rfl
  unfold overrun
  rcases hk : y.block.worker? k with _ | (_ | ⟨item, due⟩ | _)
  case some.resting =>
    obtain ⟨call, due', inner, hattempt⟩ := y.block.attempt_audited h k item now y.world
    simp only [hattempt]
    let v : Worker (ℕ × ι) (ℕ × κ) :=
      .calling ⟨item.item, item.attempts + 1⟩ (item.item.1, call) due'
    generalize hy' : ({ y with
      block := y.block.setWorker k v
      world := (inner, y.world.2.begins item.item.1) } : Yard ι κ ω) = y'
    have hposts : y'.posts = y.posts := by rw [← hy']
    have hblock : y'.block = y.block.goOn k y.block.tally (some v) := by
      rw [← hy']
      rfl
    have hworld : y'.world = (inner, y.world.2.begins item.item.1) := by rw [← hy']
    have hkeeps (u : Worker (ℕ × ι) (ℕ × κ)) (hu : some v = some u) :
        u.held.id = (Worker.resting item due : Worker (ℕ × ι) (ℕ × κ)).held.id := by
      obtain rfl := Option.some.inj hu
      rfl
    obtain ⟨hbefore, hafter, hothers⟩ := hy.bears_goOn hk hkeeps hposts hblock
    have hactor : y.actor? (.overruns k now) = some item.item.1 := by
      rw [actor?, hk]
      rfl
    by_cases hi : i = item.item.1
    · subst hi
      have htally : y'.block.tally = y.block.tally := by rw [← hy']; rfl
      have hrests : rests (.overruns k now) y' = [] := rfl
      rw [deeds_of_actor hactor, htally, hworld, Tally.since_self, hrests, Record.count_begins]
      refine .acts hbefore (fun a due' hdue => ?_) (.resumes call) hafter
      obtain ⟨-, rfl⟩ := Plight.resting.inj hdue
      exact ⟨k, now, item, .inr rfl, hk⟩
    · have hbegun : y'.world.2.begun.count i = y.world.2.begun.count i := by
        rw [hworld]
        exact List.count_cons_of_ne (Ne.symm hi)
      rw [deeds_eq_nil (by rw [hactor]; simpa using Ne.symm hi) hbegun]
      exact .spared (by rw [hposts]) (hothers i hi)
  all_goals exact hidle

/-- Every move spares an item, begins to post it, turns it away, or is the turn of whoever has it,
as long as the block is not stopped. -/
theorem Dispatching.fares (hy : y.Dispatching limit events) (hgoing : y.block.stopping = false)
    (i : ℕ) (m : Move ι) : Fares h i y m (y.move h m) (deeds i y m (y.move h m)) := by
  -- The items stay with whoever has them.
  have hstays (hactor : y.actor? m = none) (hposts : (y.move h m).posts = y.posts)
      (hworld : (y.move h m).world = y.world)
      (hplights : (y.move h m).block.plights.Perm y.block.plights) :
      Fares h i y m (y.move h m) (deeds i y m (y.move h m)) := by
    have hnone : deeds i y m (y.move h m) = [] :=
      deeds_eq_nil (by rw [hactor]; nofun) (by rw [hworld])
    rw [hnone]
    exact .spared (by rw [hposts]) (bears_congr (by rw [hposts]) fun _ => hplights.mem_iff)
  cases m with
  | post x => exact hy.fares_posts rfl rfl
  | postAsync x => exact hy.fares_posts rfl rfl
  | poster j now => exact hy.fares_stepPoster i j now
  | holds j =>
    rcases y.hold_cases j with hstep | ⟨hstep, -⟩
    all_goals
      have hmove : y.move h (.holds j) = y.hold j := rfl
      rw [hmove, hstep] at hstays
      rw [hmove, hstep]
      exact hstays rfl rfl rfl (List.Perm.refl _)
  | dispatcher =>
    have hmove : y.move h .dispatcher = y.stepDispatcher := rfl
    rcases y.stepDispatcher_cases with hstep | ⟨hstep, -⟩
    · rw [hmove, hstep] at hstays
      rw [hmove, hstep]
      exact hstays rfl rfl rfl (List.Perm.refl _)
    · rw [hmove, hstep] at hstays
      rw [hmove, hstep]
      exact hstays rfl rfl rfl y.block.plights_stepDispatcher
  | worker k now => exact hy.fares_stepWorker hgoing i k now
  | overruns k now => exact hy.fares_overrun i k now
  | drain | shutdown | signals => exact hstays rfl rfl rfl (List.Perm.refl _)

end Yard

/-! ## The tally -/

/-- How often a tally has counted something. -/
def Tally.of (t : Tally) : Deed → ℕ
  | .succeeds => t.completed
  | .fails => t.failedAttempts
  | .exhausted => t.exhausted
  | .abandoned => t.abandoned
  | .calls _ | .rests _ _ => 0

/-- Something that a tally counts. -/
def Deed.Counts : Deed → Prop
  | .succeeds | .fails | .exhausted | .abandoned => True
  | .calls _ | .rests _ _ => False

/-- A tally has counted nothing less than another one. -/
def Tally.Grows (t t' : Tally) : Prop := ∀ d, t.of d ≤ t'.of d

/-- What was counted between two tallies is the difference of them. -/
theorem Tally.count_since (t t' : Tally) {d : Deed} (hd : d.Counts) :
    (t.since t').count d = t'.of d - t.of d := by
  cases d with
  | calls | rests => exact hd.elim
  | succeeds | fails | exhausted | abandoned => simp [since, List.count_replicate, of]

/-- Nothing is counted down by whoever posts an item. -/
theorem Posting.Turn.grows {h : Handler ι κ ω} {b b' : Block (ℕ × ι) (ℕ × κ)} {now : Moment}
    {world world' : ω × Record} {p q : Posting (ℕ × ι) (ℕ × κ)}
    (hp : p.Turn h b now world b' world' q) : b.tally.Grows b'.tally := by
  intro d
  cases hp with
  | begins | turned | crashes | enters | waits | ended => exact le_refl _
  | succeeds | exhausts | fails => cases d <;> simp [Tally.of]
  | @sends item => rw [(send_keeps b item).1]

/-- Nothing is counted down by a worker. -/
theorem Worker.Turn.grows {h : Handler ι κ ω} {b : Block (ℕ × ι) (ℕ × κ)} {now : Moment}
    {world world' : ω × Record} {w : Worker (ℕ × ι) (ℕ × κ)} {tally : Tally}
    {w' : Option (Worker (ℕ × ι) (ℕ × κ))} (hw : w.Turn h b now world tally world' w') :
    b.tally.Grows tally := by
  intro d
  cases hw with
  | begins | resumes | rests | crashes => exact le_refl _
  | turnsAway | abandons | succeeds | exhausts | fails | givesUp =>
    cases d <;> simp [Tally.of, Block.abandon]

namespace Yard

variable {limit : ℕ} {h : Handler ι κ ω} {y : Yard ι κ ω} {events : List Event}

/-- Nothing is counted down by a move, and only whoever has an item that was posted counts. -/
theorem Dispatching.tally_move (hy : y.Dispatching limit events) (m : Move ι) :
    y.block.tally.Grows (y.move h m).block.tally ∧
      ((y.move h m).block.tally = y.block.tally ∨
        ∃ j, y.actor? m = some j ∧ j < y.posts.length) := by
  have hsame (htally : (y.move h m).block.tally = y.block.tally) :
      y.block.tally.Grows (y.move h m).block.tally ∧
        ((y.move h m).block.tally = y.block.tally ∨
          ∃ j, y.actor? m = some j ∧ j < y.posts.length) :=
    ⟨fun d => by rw [htally], .inl htally⟩
  cases m with
  | poster j now =>
    have hmove : y.move h (.poster j now) = y.stepPoster h j now := rfl
    rw [hmove] at hsame ⊢
    rcases y.stepPoster_cases h j now with hstep | ⟨p, hp, -, hstep⟩ | ⟨item, hp, -, hstep⟩
    · exact hsame (by rw [hstep])
    · rw [hstep]
      exact ⟨(p.step_turn h y.block y.metrics now y.world).grows,
        .inr ⟨j, rfl, (List.getElem?_eq_some_iff.mp hp).1⟩⟩
    · refine hsame ?_
      rw [hstep]
      exact (Posting.send_keeps { y.block with isOpen := true } item).1
  | worker k now =>
    have hblock : (y.move h (.worker k now)).block =
        (y.block.stepWorker (audited h) y.metrics k now y.world).1 := rfl
    cases hk : y.block.worker? k with
    | none =>
      refine hsame ?_
      rw [hblock]
      unfold Block.stepWorker
      simp only [hk]
    | some w =>
      obtain ⟨tally, w', hturn, hstep⟩ := Block.stepWorker_turn h y.metrics hk now y.world
      have htally : (y.move h (.worker k now)).block.tally = tally := by
        rw [hblock, hstep]
        cases w' <;> rfl
      -- The item of a worker has got into the queue once, so it was posted.
      obtain ⟨outcome, hdone⟩ := hy.inside w.held.id (by
        obtain ⟨handed, rest, hsplit⟩ := List.append_of_mem (hy.block.mem_handedOver hk)
        rw [hy.block.order, hsplit]
        simp)
      rw [htally]
      refine ⟨hturn.grows, .inr ⟨w.held.id, ?_, (List.getElem?_eq_some_iff.mp hdone).1⟩⟩
      simp [actor?, hk]
  | overruns k now =>
    refine hsame ?_
    show (y.overrun h k now).block.tally = _
    rcases y.overrun_cases h k now with hstep | ⟨v, world, -, hstep⟩
    · rw [hstep]
    · rw [hstep]
      rfl
  | holds j =>
    refine hsame ?_
    show (y.hold j).block.tally = _
    rcases y.hold_cases j with hstep | ⟨hstep, -⟩
    · rw [hstep]
    · rw [hstep]
  | dispatcher =>
    refine hsame ?_
    show y.stepDispatcher.block.tally = _
    rcases y.stepDispatcher_cases with hstep | ⟨hstep, -⟩
    · rw [hstep]
    · rw [hstep]
      exact (Block.held_stepDispatcher y.block).2.1
  | post | postAsync | drain | shutdown | signals => exact hsame rfl

/-- No post is forgotten. -/
theorem length_posts_move (h : Handler ι κ ω) (y : Yard ι κ ω) (m : Move ι) :
    y.posts.length ≤ (y.move h m).posts.length := by
  cases m with
  | post | postAsync =>
    show y.posts.length ≤ (y.posts ++ [_]).length
    rw [List.length_append]
    exact Nat.le_add_right _ _
  | poster j now => exact (y.stepPoster_frame h j now).2.1.ge
  | holds j =>
    show y.posts.length ≤ (y.hold j).posts.length
    rcases y.hold_cases j with hstep | ⟨hstep, -⟩
    · rw [hstep]
    · rw [hstep]
  | dispatcher =>
    show y.posts.length ≤ y.stepDispatcher.posts.length
    rcases y.stepDispatcher_cases with hstep | ⟨hstep, -⟩
    · rw [hstep]
    · rw [hstep]
  | overruns k now =>
    show y.posts.length ≤ (y.overrun h k now).posts.length
    rcases y.overrun_cases h k now with hstep | ⟨v, world, -, hstep⟩
    · rw [hstep]
    · rw [hstep]
  | worker | drain | shutdown | signals => exact le_refl _

/-- How often something is counted for an item with a move. -/
theorem count_deeds (i : ℕ) (y : Yard ι κ ω) (m : Move ι) (y' : Yard ι κ ω) {d : Deed}
    (hd : d.Counts) : (deeds i y m y').count d =
      if y.actor? m = some i then y'.block.tally.of d - y.block.tally.of d else 0 := by
  have hcalls (n : ℕ) : (List.replicate n (.calls m.now)).count d = 0 := by
    refine List.count_eq_zero.mpr fun hmem => ?_
    obtain rfl := List.eq_of_mem_replicate hmem
    exact hd
  have hrests : (rests m y').count d = 0 := by
    refine List.count_eq_zero.mpr fun hmem => ?_
    unfold rests Worker.rests at hmem
    split at hmem
    · split at hmem
      · obtain rfl := List.mem_singleton.mp hmem
        exact hd
      · cases hmem
    · cases hmem
  unfold deeds
  rw [List.count_append, hcalls, Nat.add_zero]
  split_ifs
  · rw [List.count_append, hrests, Nat.add_zero, Tally.count_since _ _ hd]
  · rfl

/-- What a move adds to the tally is what is counted with it for the items that were posted. -/
theorem Dispatching.of_tally_move (hy : y.Dispatching limit events) (m : Move ι) {d : Deed}
    (hd : d.Counts) {n : ℕ} (hn : y.posts.length ≤ n) :
    (y.move h m).block.tally.of d = y.block.tally.of d +
      ∑ i ∈ Finset.range n, (deeds i y m (y.move h m)).count d := by
  obtain ⟨hgrows, hcases⟩ := hy.tally_move (h := h) m
  simp only [count_deeds _ y m _ hd]
  rcases hcases with hsame | ⟨j, hactor, hj⟩
  · rw [hsame]
    simp
  · have hmem : j ∈ Finset.range n := Finset.mem_range.mpr (lt_of_lt_of_le hj hn)
    have hsum : ∑ i ∈ Finset.range n, (if y.actor? m = some i then
        (y.move h m).block.tally.of d - y.block.tally.of d else 0) =
          (y.move h m).block.tally.of d - y.block.tally.of d := by
      simp only [hactor, Option.some.injEq]
      rw [Finset.sum_ite_eq, if_pos hmem]
    have hle := hgrows d
    rw [hsum]
    omega

/-- The tally of a block is what was counted for its items. -/
theorem Dispatching.of_tally (hy : y.Dispatching limit []) (ms : List (Move ι)) {d : Deed}
    (hd : d.Counts) {n : ℕ} (hn : (y.play h ms).posts.length ≤ n) :
    (y.play h ms).block.tally.of d = y.block.tally.of d +
      ∑ i ∈ Finset.range n, (chronicle (deeds i) h y ms).count d := by
  induction ms using List.reverseRecOn with
  | nil =>
    simp only [chronicle, List.count_nil, Finset.sum_const_zero, Nat.add_zero]
    rfl
  | append_singleton ms m ih =>
    have hn' : (y.play h ms).posts.length ≤ n := by
      rw [play_concat] at hn
      exact (length_posts_move h _ m).trans hn
    simp only [play_concat, chronicle_concat, List.count_append]
    rw [Finset.sum_add_distrib, (hy.play ms).of_tally_move m hd hn', ih hn', Nat.add_assoc]

end Yard

end Tidemark.Retry
