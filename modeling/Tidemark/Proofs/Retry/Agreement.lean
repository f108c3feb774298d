import Tidemark.Proofs.Retry.Deeds
import Tidemark.Proofs.Retry.Draining

/-!
# A first attempt of one's own makes no difference

Someone may post an item for the workers, or make the first attempt at once and post the item only
if that fails. What is done for the item is the same if the handler keeps to a script, by which the
first calls for the item fail and all others succeed: the item goes through rounds of a call that
fails and a wait (`Deed.rounds`), and its last call ends it (`Deed.Complete`). How far an item has
come says how much of this has been done for it (`Plight.Fits`), which every step of its plight
keeps so (`Plight.Step.fits`), and therefore every move (`Yard.Tells.move`).
-/

namespace Tidemark.Retry

variable {ι κ ω : Type}

/-! ## Stories -/

namespace Deed

/-- A call begins. -/
def isCall : Deed → Bool
  | calls _ => true
  | _ => false

/-- How many calls have begun. -/
def callCount (story : List Deed) : ℕ := story.countP isCall

/-- What was counted. -/
def tally (story : List Deed) : Tally :=
  ⟨story.count .succeeds, story.count .fails, story.count .exhausted, story.count .abandoned⟩

/-- The waits, each with the moments at which it begins and at which it is to end. -/
def waits (story : List Deed) : List (Moment × Moment) :=
  story.filterMap fun
    | .rests since due => some (since, due)
    | _ => none

/-- Rounds of a call that fails and a wait, the first of them with the given number. Each has the
moment at which the call begins and the moment at which the wait begins. The wait is as long as the
schedule says for the number of the round. -/
def rounds (schedule : Backoff) : ℕ → List (Moment × Moment) → List Deed
  | _, [] => []
  | n, (begun, since) :: later =>
    .calls begun :: .fails :: .rests since (since.wake (schedule.delayAfter n)) ::
      rounds schedule (n + 1) later

/-- What is done for an item that has been dealt with, if its first `f` calls fail: rounds as long as
attempts are left and calls are to fail, and one more call, which succeeds or is the last one. -/
def Complete (schedule : Backoff) (limit f : ℕ) (story : List Deed) : Prop :=
  ∃ times last, times.length = min f (limit - 1) ∧
    story = rounds schedule 1 times ++ .calls last ::
      if f < limit then [.succeeds] else [.fails, .exhausted]

/-- No call begins before the wait in front of it is over. -/
def Patient (story : List Deed) : Prop :=
  ∀ before since due now after,
    story = before ++ .rests since due :: .calls now :: after → due ≤ now

section Rounds

variable (schedule : Backoff)

/-- One more round. -/
theorem rounds_concat (n : ℕ) (times : List (Moment × Moment)) (t : Moment × Moment) :
    rounds schedule n (times ++ [t]) = rounds schedule n times ++
      [.calls t.1, .fails, .rests t.2 (t.2.wake (schedule.delayAfter (n + times.length)))] := by
  induction times generalizing n with
  | nil => rfl
  | cons u times ih =>
    have hlength : n + 1 + times.length = n + (u :: times).length := by
      simp only [List.length_cons]
      omega
    simp only [List.cons_append, rounds, ih (n + 1), hlength]

/-- Every round has one call. -/
theorem callCount_rounds (n : ℕ) (times : List (Moment × Moment)) :
    callCount (rounds schedule n times) = times.length := by
  induction times generalizing n with
  | nil => rfl
  | cons t times ih =>
    have hrest := ih (n + 1)
    unfold callCount at hrest ⊢
    simp [rounds, List.countP_cons, isCall, hrest]

/-- Every round has one call that fails, and nothing else is counted. -/
theorem tally_rounds (n : ℕ) (times : List (Moment × Moment)) :
    tally (rounds schedule n times) = ⟨0, times.length, 0, 0⟩ := by
  induction times generalizing n with
  | nil => rfl
  | cons t times ih =>
    have hrest := ih (n + 1)
    unfold tally at hrest ⊢
    simp only [Tally.mk.injEq] at hrest ⊢
    simp [rounds, hrest]

/-- Every round has one wait, which is as long as the schedule says. -/
theorem waits_rounds (n : ℕ) (times : List (Moment × Moment)) :
    waits (rounds schedule n times) =
      (times.zipIdx n).map fun (t, k) => (t.2, t.2.wake (schedule.delayAfter k)) := by
  induction times generalizing n with
  | nil => rfl
  | cons t times ih =>
    have hrest := ih (n + 1)
    unfold waits at hrest ⊢
    rw [List.zipIdx_cons, List.map_cons, ← hrest]
    rfl

end Rounds

/-- The calls of one time and another. -/
theorem callCount_append (l l' : List Deed) : callCount (l ++ l') = callCount l + callCount l' :=
  List.countP_append ..

/-- An item that has been dealt with had one call more than were to fail, if that many attempts were
left. -/
theorem Complete.callCount {schedule : Backoff} {limit f : ℕ} {story : List Deed}
    (hstory : Complete schedule limit f story) (hlimit : 0 < limit) :
    callCount story = min (f + 1) limit := by
  obtain ⟨times, last, hlength, rfl⟩ := hstory
  have hlast : Deed.callCount (.calls last :: if f < limit then [.succeeds] else [.fails, .exhausted])
      = 1 := by
    split_ifs
    · rfl
    · rfl
  rw [callCount_append, callCount_rounds, hlast, hlength]
  omega

/-- What was counted for an item that has been dealt with. -/
theorem Complete.tally {schedule : Backoff} {limit f : ℕ} {story : List Deed}
    (hstory : Complete schedule limit f story) (hlimit : 0 < limit) :
    tally story = ⟨if f < limit then 1 else 0, min f limit, if f < limit then 0 else 1, 0⟩ := by
  obtain ⟨times, last, hlength, rfl⟩ := hstory
  have hrounds := tally_rounds schedule 1 times
  unfold Deed.tally at hrounds ⊢
  simp only [Tally.mk.injEq] at hrounds
  obtain ⟨hsucceeds, hfails, hexhausted, habandoned⟩ := hrounds
  simp only [List.count_append, hsucceeds, hfails, hexhausted, habandoned, Tally.mk.injEq]
  split_ifs with hf
  · refine ⟨rfl, ?_, rfl, rfl⟩
    show times.length + 0 = min f limit
    omega
  · refine ⟨rfl, ?_, rfl, rfl⟩
    show times.length + 1 = min f limit
    omega

/-- The waits of an item that has been dealt with are as long as the schedule says, one after the
other. -/
theorem Complete.waits {schedule : Backoff} {limit f : ℕ} {story : List Deed}
    (hstory : Complete schedule limit f story) :
    (waits story).length = min f (limit - 1) ∧ ∀ k since due,
      (Deed.waits story)[k]? = some (since, due) →
        due = Moment.wake since (schedule.delayAfter (k + 1)) := by
  obtain ⟨times, last, hlength, rfl⟩ := hstory
  have hlast : Deed.waits (.calls last :: if f < limit then [.succeeds] else [.fails, .exhausted])
      = [] := by
    split_ifs
    · rfl
    · rfl
  have hwaits : Deed.waits (rounds schedule 1 times ++ .calls last ::
      if f < limit then [.succeeds] else [.fails, .exhausted]) =
        (times.zipIdx 1).map fun (t, k) => (t.2, t.2.wake (schedule.delayAfter k)) := by
    unfold Deed.waits at hlast ⊢
    rw [List.filterMap_append, hlast, List.append_nil]
    exact waits_rounds schedule 1 times
  rw [hwaits]
  refine ⟨by rw [List.length_map, List.length_zipIdx, hlength], fun k since due hk => ?_⟩
  rw [List.getElem?_map, List.getElem?_zipIdx] at hk
  obtain ⟨t, ht, hpair⟩ : ∃ t, times[k]? = some t ∧
      (t.2, t.2.wake (schedule.delayAfter (1 + k))) = (since, due) := by
    cases ht : times[k]? with
    | none => simp [ht] at hk
    | some t =>
      rw [ht] at hk
      exact ⟨t, rfl, Option.some.inj hk⟩
  obtain ⟨rfl, rfl⟩ := Prod.mk.inj hpair
  rw [Nat.add_comm]

end Deed

/-! ## Scripts -/

/-- The outcome of the call for an item that has the number `n`, if the first `f` calls are to fail. -/
def Scripted (f n : ℕ) (outcome : Outcome Unit) : Prop :=
  if n ≤ f then ∃ e, outcome = .error (.error e) else outcome = .ok ()

/-- Whenever it ends, a call for the item that is under way ends by the script. -/
def Yard.Heeds (h : Handler ι κ ω) (f i : ℕ) (y : Yard ι κ ω) : Prop :=
  ∀ a call, y.Bears i (.calling a call) → ∀ now,
    Scripted f (y.world.2.begun.count i) (h.finish call now y.world.1).1

/-! ## Steps -/

section Steps

open Deed

variable {h : Handler ι κ ω} {schedule : Backoff} {limit f : ℕ} {story deeds : List Deed}

/-- What has been done for an item that someone has, by how far it has come. -/
def Plight.Fits (schedule : Backoff) (limit f : ℕ) (story : List Deed) : Plight κ → Prop
  | .waiting a => a = 0 ∧ story = [] ∨ ∃ times last, times.length + 1 = a ∧ a ≤ f ∧ a < limit ∧
      story = rounds schedule 1 times ++ [.calls last, .fails]
  | .calling a _ => ∃ times last, times.length + 1 = a ∧ a ≤ f + 1 ∧ a ≤ limit ∧
      story = rounds schedule 1 times ++ [.calls last]
  | .resting a due => ∃ times t, times.length + 1 = a ∧ a ≤ f ∧ a < limit ∧
      due = t.2.wake (schedule.delayAfter a) ∧ story = rounds schedule 1 (times ++ [t])

/-- A call that is under way is the latest one. -/
theorem Plight.Fits.callCount {a : ℕ} {call : κ}
    (hfits : (Plight.calling a call).Fits schedule limit f story) : callCount story = a := by
  obtain ⟨times, last, ha, -, -, rfl⟩ := hfits
  rw [callCount_append, callCount_rounds, ← ha]
  rfl

/-- A call that fails is one of those that are to fail. -/
theorem Scripted.le {n : ℕ} {e : Error} (hcall : Scripted f n (.error (.error e))) : n ≤ f := by
  by_contra hn
  rw [Scripted, if_neg hn] at hcall
  cases hcall

/-- A call that succeeds is none of those that are to fail. -/
theorem Scripted.lt {n : ℕ} (hcall : Scripted f n (.ok ())) : f < n := by
  by_contra hn
  rw [Scripted, if_pos (not_lt.mp hn)] at hcall
  obtain ⟨e, he⟩ := hcall
  cases he

/-- No call crashes that keeps to a script. -/
theorem Scripted.not_crash {n : ℕ} {cause : Crash} : ¬ Scripted f n (.error (.crash cause)) := by
  unfold Scripted
  split_ifs
  · rintro ⟨e, he⟩
    cases he
  · nofun

/-- A step of the plight of an item adds to what has been done for it what belongs there. -/
theorem Plight.Step.fits {now : Moment} {inner : ω} {pl : Plight κ} {pl' : Option (Plight κ)}
    (hstep : pl.Step h limit schedule now inner deeds pl') (hlimit : 0 < limit)
    (hfits : pl.Fits schedule limit f story)
    (hcall : ∀ a call, pl = .calling a call →
      Scripted f (callCount story) (h.finish call now inner).1) :
    (∀ q, pl' = some q → q.Fits schedule limit f (story ++ deeds)) ∧
      (pl' = none → Complete schedule limit f (story ++ deeds)) := by
  -- How a call ends tells its number from those that are to fail.
  have hscript {a : ℕ} {call : κ} (hpl : pl = .calling a call) :
      Scripted f a (h.finish call now inner).1 := by
    have hcount : callCount story = a := by
      subst hpl
      exact hfits.callCount
    rw [← hcount]
    exact hcall a call hpl
  have hround (times : List (Moment × Moment)) (last : Moment) (a : ℕ)
      (ha : times.length + 1 = a) :
      rounds schedule 1 (times ++ [(last, now)]) = rounds schedule 1 times ++
        [.calls last, .fails, .rests now (now.wake (schedule.delayAfter a))] := by
    rw [rounds_concat, ← ha, Nat.add_comm]
  cases hstep with
  | waits =>
    refine ⟨fun q hq => ?_, nofun⟩
    obtain rfl := Option.some.inj hq
    rw [List.append_nil]
    exact hfits
  | begins call =>
    refine ⟨fun q hq => ?_, nofun⟩
    obtain rfl := Option.some.inj hq
    rcases hfits with ⟨-, rfl⟩ | ⟨times, last, ha, -⟩
    · exact ⟨[], now, rfl, Nat.le_add_left 1 f, hlimit, rfl⟩
    · cases ha
  | @rests a hspent =>
    refine ⟨fun q hq => ?_, nofun⟩
    obtain rfl := Option.some.inj hq
    rcases hfits with ⟨hfresh, -⟩ | ⟨times, last, ha, hf, hleft, rfl⟩
    · exact absurd hfresh hspent
    · refine ⟨times, (last, now), ha, hf, hleft, rfl, ?_⟩
      rw [hround times last a ha, List.append_assoc]
      rfl
  | @resumes a due call =>
    refine ⟨fun q hq => ?_, nofun⟩
    obtain rfl := Option.some.inj hq
    obtain ⟨times, t, ha, hf, hleft, -, rfl⟩ := hfits
    refine ⟨times ++ [t], now, ?_, by omega, hleft, rfl⟩
    rw [List.length_append, List.length_singleton, ha]
  | @succeeds a call hends =>
    refine ⟨nofun, fun _ => ?_⟩
    have hsucceeds := hscript rfl
    rw [hends] at hsucceeds
    have hlt := hsucceeds.lt
    obtain ⟨times, last, ha, hf, hleft, rfl⟩ := hfits
    refine ⟨times, last, by omega, ?_⟩
    rw [if_pos (by omega), List.append_assoc]
    rfl
  | crashes hends =>
    have hcrash := hscript rfl
    rw [hends] at hcrash
    exact absurd hcrash Scripted.not_crash
  | @exhausts a call e hends hused =>
    refine ⟨nofun, fun _ => ?_⟩
    have hfails := hscript rfl
    rw [hends] at hfails
    have hle := hfails.le
    obtain ⟨times, last, ha, -, hleft, rfl⟩ := hfits
    refine ⟨times, last, by omega, ?_⟩
    rw [if_neg (by omega), List.append_assoc]
    rfl
  | @sends a call e hends hleft =>
    refine ⟨fun q hq => ?_, nofun⟩
    obtain rfl := Option.some.inj hq
    have hfails := hscript rfl
    rw [hends] at hfails
    obtain ⟨times, last, ha, -, -, rfl⟩ := hfits
    refine .inr ⟨times, last, ha, hfails.le, hleft, ?_⟩
    rw [List.append_assoc]
    rfl
  | @fails a call e hends hleft =>
    refine ⟨fun q hq => ?_, nofun⟩
    obtain rfl := Option.some.inj hq
    have hfails := hscript rfl
    rw [hends] at hfails
    obtain ⟨times, last, ha, -, -, rfl⟩ := hfits
    refine ⟨times, (last, now), ha, hfails.le, hleft, rfl, ?_⟩
    rw [hround times last a ha, List.append_assoc]
    rfl

end Steps

/-! ## Moves -/

/-- How a post ends with a turn: it has ended before, with success, or because the block is closed or
the call has crashed. -/
theorem Posting.Turn.ends {h : Handler ι κ ω} {b b' : Block (ℕ × ι) (ℕ × κ)} {now : Moment}
    {world world' : ω × Record} {p q : Posting (ℕ × ι) (ℕ × κ)}
    (hp : p.Turn h b now world b' world' q) {outcome : Outcome Unit} (hq : q = .done outcome) :
    p = .done outcome ∨ outcome = .ok () ∨
      outcome = .error (.error .shutdown) ∧ b.isOpen = false ∨
        ∃ item call due cause, p = .calling item call due ∧
          (h.finish call.2 now world.1).1 = .error (.crash cause) := by
  cases hp with
  | begins | fails | waits => cases hq
  | turned hclosed =>
    obtain rfl := Posting.done.inj hq
    exact .inr (.inr (.inl ⟨rfl, hclosed⟩))
  | succeeds | exhausts | enters =>
    obtain rfl := Posting.done.inj hq
    exact .inr (.inl rfl)
  | crashes hfinish => exact .inr (.inr (.inr ⟨_, _, _, _, rfl, congrArg Prod.fst hfinish⟩))
  | ended => exact .inl hq
  | @sends item =>
    rcases send_cases b item with ⟨hsend, hclosed⟩ | ⟨hsend, -⟩ | ⟨hsend, -⟩
    · rw [hsend] at hq
      obtain rfl := Posting.done.inj hq
      exact .inr (.inr (.inl ⟨rfl, hclosed⟩))
    · rw [hsend] at hq
      obtain rfl := Posting.done.inj hq
      exact .inr (.inl rfl)
    · rw [hsend] at hq
      cases hq

namespace Yard

variable {h : Handler ι κ ω} {y : Yard ι κ ω} {schedule : Backoff} {limit f i : ℕ}
  {story : List Deed}

/-- The calls that begin with a move are noted. -/
theorem callCount_deeds (i : ℕ) (y : Yard ι κ ω) (m : Move ι) (y' : Yard ι κ ω) :
    Deed.callCount (deeds i y m y') = y'.world.2.begun.count i - y.world.2.begun.count i := by
  have hsince (t t' : Tally) : Deed.callCount (t.since t') = 0 := by
    simp [Deed.callCount, Tally.since, List.countP_replicate, Deed.isCall]
  have hrests : Deed.callCount (rests m y') = 0 := by
    unfold rests Worker.rests
    split
    · split
      · rfl
      · rfl
    · rfl
  have hcalls (n : ℕ) : Deed.callCount (List.replicate n (.calls m.now)) = n := by
    simp [Deed.callCount, List.countP_replicate, Deed.isCall]
  unfold deeds
  rw [Deed.callCount_append, hcalls]
  split_ifs
  · rw [Deed.callCount_append, hsince, hrests]
    omega
  · exact Nat.zero_add _

/-- A move begins one call at most. -/
theorem Wired.begun_move (hy : y.Wired) (h : Handler ι κ ω) (m : Move ι) :
    (y.move h m).world.2.begun = y.world.2.begun ∨
      ∃ j, (y.move h m).world.2.begun = j :: y.world.2.begun := by
  cases m with
  | poster j now => exact (hy.begun_stepPoster h j now).imp id fun hcons => ⟨j, hcons⟩
  | worker k now =>
    have hworld : (y.move h (.worker k now)).world =
        (y.block.stepWorker (audited h) y.metrics k now y.world).2.2 := rfl
    rw [hworld]
    cases hk : y.block.worker? k with
    | none =>
      left
      unfold Block.stepWorker
      simp only [hk]
    | some w =>
      obtain ⟨tally, w', hturn, -⟩ := Block.stepWorker_turn h y.metrics hk now y.world
      cases w' with
      | none => exact .inl hturn.ends_of_none.1
      | some v => exact hturn.begun_of_some.imp id fun hcons => ⟨_, hcons⟩
  | overruns k now =>
    show (y.overrun h k now).world.2.begun = _ ∨ ∃ j, (y.overrun h k now).world.2.begun = _
    unfold overrun
    rcases hk : y.block.worker? k with _ | (_ | ⟨item, due⟩ | _)
    case some.resting =>
      obtain ⟨call, due', inner, hattempt⟩ := y.block.attempt_audited h k item now y.world
      exact .inr ⟨item.item.1, by simp only [hattempt]; rfl⟩
    all_goals exact .inl rfl
  | holds j =>
    left
    rcases y.hold_cases j with hstep | ⟨hstep, -⟩
    all_goals
      show (y.hold j).world.2.begun = _
      rw [hstep]
  | dispatcher =>
    left
    rcases y.stepDispatcher_cases with hstep | ⟨hstep, -⟩
    all_goals
      show y.stepDispatcher.world.2.begun = _
      rw [hstep]
  | post | postAsync | drain | shutdown | signals => exact .inl rfl

/-- A move leaves the schedule of the block alone. -/
theorem schedule_move (h : Handler ι κ ω) (y : Yard ι κ ω) (m : Move ι) :
    (y.move h m).block.schedule = y.block.schedule := by
  cases m with
  | poster j now =>
    show (y.stepPoster h j now).block.schedule = _
    rcases y.stepPoster_cases h j now with hstep | ⟨p, -, -, hstep⟩ | ⟨item, -, -, hstep⟩
    · rw [hstep]
    · have hturn := p.step_turn h y.block y.metrics now y.world
      have hblock : (y.stepPoster h j now).block =
          (p.step (audited h) y.block y.metrics now y.world).2.1 := by rw [hstep]
      rw [hblock]
      dsimp only at hturn
      generalize (p.step (audited h) y.block y.metrics now y.world).2.1 = b' at hturn
      generalize (p.step (audited h) y.block y.metrics now y.world).2.2.2 = world' at hturn
      generalize (p.step (audited h) y.block y.metrics now y.world).1 = q at hturn
      cases hturn with
      | @sends item => exact (Posting.send_keeps y.block item).2
      | begins | turned | succeeds | crashes | exhausts | fails | enters | waits | ended => rfl
    · rw [hstep]
      exact (Posting.send_keeps { y.block with isOpen := true } item).2
  | holds j =>
    show (y.hold j).block.schedule = _
    rcases y.hold_cases j with hstep | ⟨hstep, -⟩
    · rw [hstep]
    · rw [hstep]
  | dispatcher =>
    show y.stepDispatcher.block.schedule = _
    rcases y.stepDispatcher_cases with hstep | ⟨hstep, -⟩
    · rw [hstep]
    · rw [hstep]
      rcases y.block.stepDispatcher_cases with hstep | ⟨item, rest, line, granted, -, -, hstep⟩ |
        ⟨-, -, -, hstep⟩ | ⟨item, k, -, -, hstep⟩ | ⟨-, -, hstep⟩
      all_goals rw [hstep]
  | worker k now =>
    show (y.block.stepWorker (audited h) y.metrics k now y.world).1.schedule = _
    rcases Block.stepWorker_cases h y.block y.metrics k now y.world with
      hstep | ⟨tally, ⟨v, -, hstep⟩ | hstep⟩
    · rw [hstep]
    · rw [hstep]
      rfl
    · rw [hstep]
      rfl
  | overruns k now =>
    show (y.overrun h k now).block.schedule = _
    rcases y.overrun_cases h k now with hstep | ⟨v, world, -, hstep⟩
    · rw [hstep]
    · rw [hstep]
      rfl
  | post | postAsync | drain | shutdown | signals => rfl

/-- The story of an item fits how far it has come. A story that has ended is complete, unless the
item was turned away. -/
inductive Stands (schedule : Backoff) (limit f i : ℕ) (y : Yard ι κ ω) : List Deed → Prop where
  /-- The item was not posted so far. -/
  | unposted (hposts : y.posts[i]? = none) : Stands schedule limit f i y []
  /-- Someone has the item. -/
  | born {pl : Plight κ} {story : List Deed} (hbears : y.Bears i pl)
    (hfits : pl.Fits schedule limit f story) : Stands schedule limit f i y story
  /-- The item was turned away. -/
  | turned {story : List Deed} (hgone : ∀ pl, ¬ y.Bears i pl)
    (hanswer : y.posts[i]? = some (.done (.error (.error .shutdown)))) :
    Stands schedule limit f i y story
  /-- The item was dealt with. -/
  | settled {story : List Deed} (hgone : ∀ pl, ¬ y.Bears i pl) (hposted : i < y.posts.length)
    (hstory : Deed.Complete schedule limit f story) : Stands schedule limit f i y story

/-- A yard whose block was not stopped, and the story of an item in it. -/
structure Tells (schedule : Backoff) (limit f i : ℕ) (y : Yard ι κ ω) (story : List Deed) :
    Prop where
  attempts : y.block.maximumAttempts = limit
  delays : y.block.schedule = schedule
  going : y.block.stopping = false
  counted : y.world.2.begun.count i = Deed.callCount story
  stands : Stands schedule limit f i y story

/-- A move goes on with the story of an item, if the call of the item keeps to the script. -/
theorem Stands.move {slots : ℕ} {events : List Event} (hstands : Stands schedule limit f i y story)
    (hy : y.Dispatching slots events) (hlimit : 0 < limit)
    (hattempts : y.block.maximumAttempts = limit) (hdelays : y.block.schedule = schedule)
    (hcounted : y.world.2.begun.count i = Deed.callCount story) (hheeds : y.Heeds h f i)
    {m : Move ι} {deeds : List Deed} (hfares : Fares h i y m (y.move h m) deeds) :
    Stands schedule limit f i (y.move h m) (story ++ deeds) := by
  cases hfares with
  | spared hposts hbears =>
    have hgone (hnone : ∀ pl, ¬ y.Bears i pl) (pl : Plight κ) : ¬ (y.move h m).Bears i pl :=
      fun hpl => hnone pl ((hbears pl).mp hpl)
    rw [List.append_nil]
    cases hstands with
    | unposted hnone => exact .unposted (hposts.trans hnone)
    | born hpl hfits => exact .born ((hbears _).mpr hpl) hfits
    | turned hnone hanswer => exact .turned (hgone hnone) (hposts.trans hanswer)
    | settled hnone hposted hstory =>
      exact .settled (hgone hnone) (lt_of_lt_of_le hposted (y.length_posts_move h m)) hstory
  | posted hnew hbears =>
    have hnone : y.posts[i]? = none := List.getElem?_eq_none hnew.ge
    rw [List.append_nil]
    cases hstands with
    | unposted => exact .born ((hbears _).mpr rfl) (.inl ⟨rfl, rfl⟩)
    | born hpl => exact absurd hpl (hy.not_bears hnone _)
    | turned _ hanswer => exact nomatch hanswer.symm.trans hnone
    | settled _ hposted => exact absurd hnew hposted.ne
  | turned hgone hanswer => exact .turned hgone hanswer
  | @acts pl pl' deeds hpl _ hstep hpl' =>
    -- Someone has the item, so it is neither unknown nor gone.
    cases hstands with
    | unposted hnone => exact absurd hpl (hy.not_bears hnone _)
    | turned hnone => exact absurd hpl (hnone _)
    | settled hnone => exact absurd hpl (hnone _)
    | born hbefore hfits =>
      obtain rfl := hy.bears_unique hpl hbefore
      rw [hattempts, hdelays] at hstep
      have hcall (a : ℕ) (call : κ) (hcalling : pl = .calling a call) :
          Scripted f (Deed.callCount story) (h.finish call m.now y.world.1).1 := by
        rw [← hcounted]
        exact hheeds a call (hcalling ▸ hpl) m.now
      obtain ⟨hgoes, hends⟩ := hstep.fits hlimit hfits hcall
      cases pl' with
      | some q => exact .born ((hpl' q).mpr rfl) (hgoes q rfl)
      | none =>
        have hposted : i < y.posts.length := by
          by_contra hi
          exact hy.not_bears (List.getElem?_eq_none (not_lt.mp hi)) _ hpl
        exact .settled (fun q hq => nomatch (hpl' q).mp hq)
          (lt_of_lt_of_le hposted (y.length_posts_move h m)) (hends rfl)

/-- Every move that does not stop the block goes on with the story of an item, if the call of the
item keeps to the script. -/
theorem Tells.move {slots : ℕ} {events : List Event} (htells : y.Tells schedule limit f i story)
    (hy : y.Dispatching slots events) (hlimit : 0 < limit) {m : Move ι} (hm : m.stops = false)
    (hheeds : y.Heeds h f i) :
    (y.move h m).Tells schedule limit f i (story ++ deeds i y m (y.move h m)) where
  attempts := (y.move_switches h m).1.trans htells.attempts
  delays := (y.schedule_move h m).trans htells.delays
  going := ((y.move_switches h m).2.2 hm).trans htells.going
  counted := by
    have hgrows : y.world.2.begun.count i ≤ (y.move h m).world.2.begun.count i := by
      rcases hy.wired.begun_move h m with hsame | ⟨j, hcons⟩
      · rw [hsame]
      · rw [hcons, List.count_cons]
        exact Nat.le_add_right _ _
    have hcounted := htells.counted
    rw [Deed.callCount_append, callCount_deeds]
    omega
  stands := htells.stands.move hy hlimit htells.attempts htells.delays htells.counted hheeds
    (hy.fares htells.going i m)

/-! ## Runs -/

/-- Along moves, the calls for the item keep to the script. -/
def Follows (h : Handler ι κ ω) (f i : ℕ) (y : Yard ι κ ω) (ms : List (Move ι)) : Prop :=
  ∀ start, start <+: ms → (y.play h start).Heeds h f i

/-- No worker makes a move before its wait is over. -/
def Timely (y : Yard ι κ ω) (m : Move ι) : Prop := ∀ due, y.Rouses m due → due ≤ m.now

/-- Nothing has been done for the items of a new block. -/
theorem Tells.new {name : String} {config : Config.Retrying} {b : Block (ℕ × ι) (ℕ × κ)}
    (hb : Block.new name config = .ok b) (world : ω) (f i : ℕ) :
    (new b world).Tells b.schedule (max 1 config.maximumAttempts) f i [] := by
  obtain ⟨schedule, -, rfl⟩ := Block.new_eq hb
  exact ⟨max_comm _ _, rfl, rfl, rfl, .unposted rfl⟩

/-- Any number of moves that do not stop the block goes on with the story of an item. -/
theorem Tells.play {slots : ℕ} (htells : y.Tells schedule limit f i [])
    (hy : y.Dispatching slots []) (hlimit : 0 < limit) (ms : List (Move ι))
    (hms : ∀ m ∈ ms, m.stops = false) (hfollows : y.Follows h f i ms) :
    (y.play h ms).Tells schedule limit f i (chronicle (deeds i) h y ms) := by
  induction ms using List.reverseRecOn with
  | nil => exact htells
  | append_singleton ms m ih =>
    have hbefore := ih (fun m' hm' => hms m' (List.mem_append_left _ hm'))
      (fun start hstart => hfollows start (hstart.trans (List.prefix_append _ _)))
    rw [play_concat, chronicle_concat]
    exact hbefore.move (hy.play ms) hlimit (hms m (by simp)) (hfollows ms (List.prefix_append _ _))

/-- A timely move begins no call before the wait in front of it is over. -/
theorem Tells.patient_move {slots : ℕ} {events : List Event}
    (htells : y.Tells schedule limit f i story) (hy : y.Dispatching slots events) {m : Move ι}
    (htimely : y.Timely m) (hpatient : Deed.Patient story) :
    Deed.Patient (story ++ deeds i y m (y.move h m)) := by
  have hfares := hy.fares (h := h) htells.going i m
  generalize deeds i y m (y.move h m) = new at hfares
  intro before since due now after hsplit
  have hsplit : story ++ new = (before ++ [.rests since due]) ++ .calls now :: after := by
    rw [hsplit, List.append_assoc]
    rfl
  rcases split_append hsplit with ⟨after', hstory⟩ | ⟨between, hbefore, hnew⟩
  · exact hpatient before since due now after' (by rw [hstory, List.append_assoc]; rfl)
  · have hcall : .calls now ∈ new := by
      rw [hnew]
      exact List.mem_append_right _ List.mem_cons_self
    -- Only the beginning of a call is noted as a call, and nothing else with it.
    have hlast (hone : new = [.calls m.now]) : story = before ++ [.rests since due] ∧
        now = m.now := by
      rw [hone] at hnew
      cases between with
      | nil => exact ⟨by simpa using hbefore.symm, (Deed.calls.inj (List.cons.inj hnew).1).symm⟩
      | cons d between => simp at hnew
    cases hfares with
    | spared | posted | turned => cases hcall
    | @acts pl pl' deeds hpl hrouses hstep hpl' =>
      have hfits : pl.Fits schedule limit f story := by
        cases htells.stands with
        | unposted hnone => exact absurd hpl (hy.not_bears hnone _)
        | turned hnone => exact absurd hpl (hnone _)
        | settled hnone => exact absurd hpl (hnone _)
        | born hpl' hfits => exact hy.bears_unique hpl hpl' ▸ hfits
      cases hstep with
      | begins call =>
        obtain ⟨hstory, -⟩ := hlast rfl
        rcases hfits with ⟨-, hnothing⟩ | ⟨times, last, ha, -⟩
        · rw [hnothing] at hstory
          simp at hstory
        · cases ha
      | @resumes a due' call =>
        obtain ⟨hstory, hnow⟩ := hlast rfl
        obtain ⟨times, t, ha, -, -, hdue, hrounds⟩ := hfits
        -- The wait in front of the call is that of the worker, which is over.
        have hwait : t.2.wake (schedule.delayAfter (1 + times.length)) = due := by
          rw [hrounds, Deed.rounds_concat] at hstory
          have hends := congrArg List.getLast? hstory
          simp at hends
          exact hends.2
        have hover : due' ≤ m.now := htimely due' (hrouses a due' rfl)
        rw [hdue, ← ha, Nat.add_comm, hwait] at hover
        rw [hnow]
        exact hover
      | waits | rests | succeeds | crashes | exhausts | sends | fails => simp at hcall

/-- Timely moves begin no call before the wait in front of it is over. -/
theorem Tells.patient {slots : ℕ} (htells : y.Tells schedule limit f i [])
    (hy : y.Dispatching slots []) (hlimit : 0 < limit) (ms : List (Move ι))
    (hms : ∀ m ∈ ms, m.stops = false) (hfollows : y.Follows h f i ms)
    (htimely : ∀ start m, start ++ [m] <+: ms → (y.play h start).Timely m) :
    Deed.Patient (chronicle (deeds i) h y ms) := by
  induction ms using List.reverseRecOn with
  | nil =>
    intro before since due now after hsplit
    simp [chronicle] at hsplit
  | append_singleton ms m ih =>
    have hms' (m' : Move ι) (hm' : m' ∈ ms) := hms m' (List.mem_append_left _ hm')
    have hfollows' : y.Follows h f i ms := fun start hstart =>
      hfollows start (hstart.trans (List.prefix_append _ _))
    have hpatient := ih hms' hfollows' fun start m' hstart =>
      htimely start m' (hstart.trans (List.prefix_append _ _))
    rw [chronicle_concat]
    exact (htells.play hy hlimit ms hms' hfollows').patient_move (hy.play ms)
      (htimely ms m (List.prefix_refl _)) hpatient

/-- The story of an item is complete that was accepted and that nobody has any more. -/
theorem Stands.complete (hstands : Stands schedule limit f i y story)
    (hgone : ∀ pl, ¬ y.Bears i pl) (hanswer : y.posts[i]? = some (.done (.ok ()))) :
    Deed.Complete schedule limit f story := by
  cases hstands with
  | unposted hnone => exact nomatch hanswer.symm.trans hnone
  | born hbears => exact absurd hbears (hgone _)
  | turned _ hlate => exact nomatch hanswer.symm.trans hlate
  | settled _ _ hstory => exact hstory

/-- Nobody has an item whose post has ended once the block is drained. -/
theorem Wired.not_bears_of_drained (hy : y.Wired) (hdrained : y.block.isDrained = true)
    {outcome : Outcome Unit} (hanswer : y.posts[i]? = some (.done outcome)) (pl : Plight κ) :
    ¬ y.Bears i pl := by
  have hdone := Block.dispatcher_of_isDrained hdrained
  rintro (⟨p, hp, hplight⟩ | hpl)
  · obtain rfl : p = .done outcome := Option.some.inj (hp.symm.trans hanswer)
    cases hplight
  · rw [Block.plights, (hy.block.closed (.inr hdone)).1, hdone, hy.block.gone hdone] at hpl
    cases hpl

/-- The post of the item is answered with success, unless it comes too late. -/
def Received (i : ℕ) (y : Yard ι κ ω) : Prop :=
  ∀ outcome, y.posts[i]? = some (.done outcome) →
    outcome = .ok () ∨ outcome = .error (.error .shutdown) ∧ y.block.isOpen = false

/-- A move answers the post of an item with success, unless it comes too late, if the call of the
item keeps to the script. -/
theorem Received.move (hreceived : y.Received i) (hheeds : y.Heeds h f i) (m : Move ι) :
    (y.move h m).Received i := by
  have hclosed := (y.move_switches h m).2.1
  have hkept (hposts : (y.move h m).posts[i]? = y.posts[i]?) : (y.move h m).Received i := by
    intro outcome hdone
    exact (hreceived outcome (hposts.symm.trans hdone)).imp id fun hlate =>
      ⟨hlate.1, hclosed hlate.2⟩
  have hopens {p : Posting (ℕ × ι) (ℕ × κ)} (hp : p.answer? = none)
      (hposts : (y.move h m).posts = y.posts ++ [p]) : (y.move h m).Received i := by
    by_cases hi : i < y.posts.length
    · exact hkept (by rw [hposts, List.getElem?_append_left hi])
    · intro outcome hdone
      rw [hposts, List.getElem?_append_right (not_lt.mp hi)] at hdone
      obtain rfl : Posting.done outcome = p := List.mem_singleton.mp (List.mem_of_getElem? hdone)
      cases hp
  cases m with
  | post x => exact hopens (p := .post (y.posts.length, x)) rfl rfl
  | postAsync x => exact hopens (p := .trying (y.posts.length, x)) rfl rfl
  | poster j now =>
    by_cases hij : i = j
    · subst hij
      intro outcome hdone
      have hdone : (y.stepPoster h i now).posts[i]? = some (.done outcome) := hdone
      show _ ∨ _ ∧ (y.stepPoster h i now).block.isOpen = false
      rcases y.stepPoster_cases h i now with hstep | ⟨p, hp, -, hstep⟩ | ⟨item, hp, -, hstep⟩
      · rw [hstep] at hdone ⊢
        exact hreceived outcome hdone
      · have hi : i < y.posts.length := (List.getElem?_eq_some_iff.mp hp).1
        have hturn := p.step_turn h y.block y.metrics now y.world
        have hopen := hturn.spares.1.isOpen
        rw [hstep] at hdone ⊢
        rw [List.getElem?_set_self hi] at hdone
        show _ ∨ _ ∧ (p.step (audited h) y.block y.metrics now y.world).2.1.isOpen = false
        rw [hopen]
        rcases hturn.ends (Option.some.inj hdone) with
          rfl | hok | hlate | ⟨item, call, due, cause, rfl, hcrash⟩
        · exact hreceived outcome hp
        · exact .inl hok
        · exact .inr hlate
        · -- No call crashes that keeps to the script.
          have hcall := hheeds item.attempts call.2 (.inl ⟨_, hp, rfl⟩) now
          rw [hcrash] at hcall
          exact absurd hcall Scripted.not_crash
      · have hi : i < y.posts.length := (List.getElem?_eq_some_iff.mp hp).1
        rw [hstep] at hdone
        rw [List.getElem?_set_self hi] at hdone
        rcases Posting.send_cases { y.block with isOpen := true } item with
          ⟨-, hopen⟩ | ⟨hsend, -⟩ | ⟨hsend, -⟩
        · cases hopen
        · rw [hsend] at hdone
          cases hdone
          exact .inl rfl
        · rw [hsend] at hdone
          cases hdone
    · exact hkept ((y.stepPoster_frame h j now).1 i hij)
  | holds j =>
    refine hkept ?_
    show (y.hold j).posts[i]? = _
    rcases y.hold_cases j with hstep | ⟨hstep, -⟩
    · rw [hstep]
    · rw [hstep]
  | dispatcher =>
    refine hkept ?_
    show y.stepDispatcher.posts[i]? = _
    rcases y.stepDispatcher_cases with hstep | ⟨hstep, -⟩
    · rw [hstep]
    · rw [hstep]
  | overruns k now =>
    refine hkept ?_
    show (y.overrun h k now).posts[i]? = _
    rcases y.overrun_cases h k now with hstep | ⟨v, world', -, hstep⟩
    · rw [hstep]
    · rw [hstep]
  | worker | drain | shutdown | signals => exact hkept rfl

/-- Any number of moves answers the post of an item with success, unless it comes too late. -/
theorem Received.play (hreceived : y.Received i) (ms : List (Move ι))
    (hfollows : y.Follows h f i ms) : (y.play h ms).Received i := by
  induction ms using List.reverseRecOn with
  | nil => exact hreceived
  | append_singleton ms m ih =>
    have hbefore := ih fun start hstart => hfollows start (hstart.trans (List.prefix_append _ _))
    rw [play_concat]
    exact hbefore.move (hfollows ms (List.prefix_append _ _)) m

/-- No post is forgotten in a run. -/
theorem length_posts_play (h : Handler ι κ ω) (y : Yard ι κ ω) (ms : List (Move ι)) :
    y.posts.length ≤ (y.play h ms).posts.length :=
  List.foldlRecOn ms (Yard.move h) (motive := fun z => y.posts.length ≤ z.posts.length) (le_refl _)
    fun z hz m _ => hz.trans (z.length_posts_move h m)

/-- It makes no difference whether an item is posted for the workers or with a first attempt of one's
own, whatever else happens in the yard, as long as nobody stops the block and the handler keeps to a
script by which the first `f` calls for the item fail and all others succeed. The post is answered
with success unless the block was closed before. Once the block is drained, the item had as many
calls as there are attempts, or one more than were to fail if that is less. After each of them but
the last there was a wait as long as the schedule, which is that of the settings, says for the
number of the call, and the tally has counted for the item what its calls came to. Workers that move
no earlier than their waits are over call no earlier.

Whatever happened so far, those who are ready take only as many turns as there is to do. Then the
post has its answer, and the block is drained if it is closed. -/
theorem dealt_with_alike {name : String} {config : Config.Retrying}
    {b : Block (ℕ × ι) (ℕ × κ)} (hb : Block.new name config = .ok b) (h : Handler ι κ ω) (world : ω)
    (x : ι) {way : Move ι} (hway : way = .post x ∨ way = .postAsync x) (before after : List (Move ι))
    (f : ℕ) :
    let i := ((new b world).play h before).posts.length
    let ms := before ++ way :: after
    let y := (new b world).play h ms
    let story := chronicle (deeds i) h (new b world) ms
    let limit := max 1 config.maximumAttempts
    config.schedule = .ok b.schedule ∧
    ((∀ m ∈ ms, m.stops = false) → (new b world).Follows h f i ms →
      (∀ outcome, y.posts[i]? = some (.done outcome) →
        outcome = .ok () ∨ outcome = .error (.error .shutdown) ∧ y.block.isOpen = false) ∧
        (y.block.isDrained = true → y.posts[i]? = some (.done (.ok ())) →
          Deed.Complete b.schedule limit f story ∧
            y.world.2.begun.count i = min (f + 1) limit ∧
              ((Deed.waits story).length = min f (limit - 1) ∧ ∀ k since due,
                (Deed.waits story)[k]? = some (since, due) →
                  due = Moment.wake since (b.schedule.delayAfter (k + 1))) ∧
                Deed.tally story =
                  ⟨if f < limit then 1 else 0, min f limit, if f < limit then 0 else 1, 0⟩ ∧
                  (y.posts.length = 1 → y.block.tally = Deed.tally story) ∧
                    ((∀ start m, start ++ [m] <+: ms → ((new b world).play h start).Timely m) →
                      Deed.Patient story))) ∧
      ∀ later, y.Turns h later → later.length ≤ y.effort ∧
        ((∀ m, ¬ (y.play h later).Ready m) →
          (∃ outcome, (y.play h later).posts[i]? = some (.done outcome)) ∧
            ((y.play h later).block.isOpen = false → (y.play h later).block.isDrained = true)) := by
  intro i ms y story limit
  have hschedule : config.schedule = .ok b.schedule := by
    obtain ⟨schedule, hread, rfl⟩ := Block.new_eq hb
    exact hread
  have hlimit : 0 < limit := lt_of_lt_of_le Nat.one_pos (le_max_left _ _)
  have hnew := Dispatching.new hb world
  have htold := Tells.new hb world f i
  have hposted : i < y.posts.length := by
    have hplay : y = (((new b world).play h before).move h way).play h after := by
      simp only [y, ms, play, List.foldl_append, List.foldl_cons]
    have hway : (((new b world).play h before).move h way).posts.length = i + 1 := by
      rcases hway with rfl | rfl
      all_goals exact List.length_append
    rw [hplay]
    exact lt_of_lt_of_le (by omega) (length_posts_play h _ after)
  refine ⟨hschedule, fun hstops hfollows => ⟨?_, fun hdrained hanswer => ?_⟩,
    fun later hlater => ?_⟩
  · have hreceived : (new b world).Received i := fun outcome hdone => by
      have hnone : (new b world).posts[i]? = none := rfl
      rw [hnone] at hdone
      cases hdone
    exact hreceived.play ms hfollows
  · have htells := htold.play hnew hlimit ms hstops hfollows
    have hgone := (hnew.play ms).wired.not_bears_of_drained (i := i) hdrained hanswer
    have hstory : Deed.Complete b.schedule limit f story := htells.stands.complete hgone hanswer
    refine ⟨hstory, htells.counted.trans (hstory.callCount hlimit), hstory.waits,
      hstory.tally hlimit, fun hone => ?_,
      htold.patient hnew hlimit ms hstops hfollows⟩
    -- The item is the only one, so that nothing was counted for others.
    have hi : i = 0 := by omega
    have hcounts (d : Deed) (hd : d.Counts) : y.block.tally.of d = story.count d := by
      have hsum := hnew.of_tally (h := h) ms hd (n := 1) (le_of_eq hone)
      have hstart : (new b world).block.tally.of d = 0 := by
        obtain ⟨schedule, -, rfl⟩ := Block.new_eq hb
        cases d <;> rfl
      rw [hstart, Finset.sum_range_one, Nat.zero_add, ← hi] at hsum
      exact hsum
    have hcompleted := hcounts .succeeds trivial
    have hfailed := hcounts .fails trivial
    have hexhausted := hcounts .exhausted trivial
    have habandoned := hcounts .abandoned trivial
    simp only [Tally.of] at hcompleted hfailed hexhausted habandoned
    rw [Deed.tally, ← hcompleted, ← hfailed, ← hexhausted, ← habandoned]
  · have hmanned : y.Manned (max 1 config.maxConcurrency) := (Manned.new hb world).play ms
    have hlength := hmanned.length_add_effort hlater
    refine ⟨by omega, fun hnone => ?_⟩
    obtain ⟨hanswered, hdrains⟩ := (hmanned.play later).ends hnone
    have hi : i < (y.play h later).posts.length :=
      lt_of_lt_of_le hposted (length_posts_play h y later)
    have hanswer := hanswered _ (List.getElem_mem hi)
    refine ⟨?_, hdrains⟩
    rw [List.getElem?_eq_getElem hi]
    cases hp : (y.play h later).posts[i] with
    | done outcome => exact ⟨outcome, rfl⟩
    | trying | calling | sending | waiting =>
      rw [hp] at hanswer
      cases hanswer

/-- A handler whose first `f` calls fail. Its world counts the calls that have ended. -/
def failsFirst (f : ℕ) : Handler Unit Unit ℕ where
  start _ now world := (((), now), world)
  finish _ _ world := (if world < f then .error (.error .shutdown) else .ok (), world + 1)

/-- An item for which a call is under way is one of the items in the yard. -/
theorem Bears.calling {a : ℕ} {call : κ} (hbears : y.Bears i (.calling a call)) :
    ∃ x ∈ y.held, x.calling = true := by
  rcases hbears with ⟨p, hp, hplight⟩ | hblock
  · have hmem := List.mem_of_getElem? hp
    cases p with
    | calling item call' due =>
      exact ⟨item.held true false, List.mem_append_left _ (List.mem_flatMap.mpr
        ⟨_, hmem, List.mem_singleton_self _⟩), rfl⟩
    | trying | sending | waiting | done => cases hplight
  · rcases List.mem_append.mp hblock with hwaits | hworks
    · -- The items in the queue and that of the dispatcher wait.
      exfalso
      rcases List.mem_append.mp hwaits with hqueued | hpicked
      · obtain ⟨item, -, hitem⟩ := List.mem_map.mp hqueued
        cases hitem
      · cases hdispatcher : y.block.dispatcher with
        | acquiring item k =>
          rw [hdispatcher] at hpicked
          cases List.mem_singleton.mp hpicked
        | receiving | joining | done =>
          rw [hdispatcher] at hpicked
          cases hpicked
    · obtain ⟨⟨k, w⟩, hw, hown⟩ := List.mem_map.mp hworks
      cases w with
      | calling item call' due =>
        refine ⟨item.held true true, List.mem_append_right _ (List.mem_append_right _ ?_), rfl⟩
        exact List.mem_map.mpr ⟨(k, .calling item call' due), hw, rfl⟩
      | starting | resting => cases congrArg Prod.snd hown

/-- The handler whose first calls fail keeps to that script while its world has counted the calls of
the item. -/
theorem heeds_failsFirst {f i : ℕ} {y : Yard Unit Unit ℕ}
    (hcounted : (∃ x ∈ y.held, x.calling = true) →
      y.world.2.begun.count i = y.world.1 + 1) : y.Heeds (failsFirst f) f i := by
  intro a call hbears now
  rw [hcounted hbears.calling, Scripted]
  by_cases hlt : y.world.1 < f
  · rw [if_pos (Nat.succ_le_of_lt hlt)]
    exact ⟨.shutdown, if_pos hlt⟩
  · rw [if_neg (by omega)]
    exact if_neg hlt

/-- Delays of one and two milliseconds. -/
def quickly : Config.Retrying := { backoff := ["1ms", "2ms"] }

/-- A new block with these delays. -/
def quickBlock : Block (ℕ × Unit) (ℕ × Unit) :=
  { name := "orders", schedule := ⟨[.ofMillis 1, .ofMillis 2]⟩, maximumAttempts := 3
    capacity := 1000, slots := { limit := 1 } }

/-- Moves by which an item is posted with a first attempt, which fails. The block is drained. The
second attempt fails after a wait, and the third one succeeds after another. -/
def thirdTime : List (Move Unit) :=
  [.postAsync (), .poster 0 0, .poster 0 1, .poster 0 1, .drain, .dispatcher, .dispatcher,
    .worker 0 2, .worker 0 1000002, .worker 0 1000003, .worker 0 3000003, .worker 0 3000004,
    .dispatcher, .dispatcher]

/-- An item whose first two calls fail is dealt with by the third one. The waits in between are
those of the settings, of one and two milliseconds. -/
theorem dealt_with_third_time :
    Block.new "orders" quickly = .ok quickBlock ∧
      quickly.schedule = .ok ⟨[.ofMillis 1, .ofMillis 2]⟩ ∧
        (∀ m ∈ thirdTime, m.stops = false) ∧
          (new quickBlock 0).Follows (failsFirst 2) 2 0 thirdTime ∧
            let y := (new quickBlock 0).play (failsFirst 2) thirdTime
            y.block.isDrained = true ∧ y.posts[0]? = some (.done (.ok ())) ∧
              y.world.2.begun.count 0 = 3 ∧ y.block.tally = ⟨1, 2, 0, 0⟩ ∧
                chronicle (deeds 0) (failsFirst 2) (new quickBlock 0) thirdTime =
                  [.calls 0, .fails, .rests 2 1000002, .calls 1000002, .fails,
                    .rests 1000003 3000003, .calls 3000003, .succeeds] := by
  have hb : Block.new "orders" quickly = .ok quickBlock := rfl
  have hstops : ∀ m ∈ thirdTime, m.stops = false := by decide
  have hfollows : (new quickBlock 0).Follows (failsFirst 2) 2 0 thirdTime := by
    intro start hstart
    have hcounted : ∀ start ∈ thirdTime.inits,
        (∃ x ∈ ((new quickBlock 0).play (failsFirst 2) start).held, x.calling = true) →
          ((new quickBlock 0).play (failsFirst 2) start).world.2.begun.count 0 =
            ((new quickBlock 0).play (failsFirst 2) start).world.1 + 1 := by decide +kernel
    exact heeds_failsFirst (hcounted start ((List.mem_inits _ _).mpr hstart))
  have hdrained : ((new quickBlock 0).play (failsFirst 2) thirdTime).block.isDrained = true := by
    decide +kernel
  have hanswer : ((new quickBlock 0).play (failsFirst 2) thirdTime).posts[0]? =
      some (.done (.ok ())) := by rfl
  obtain ⟨hschedule, hdealt, -⟩ :=
    dealt_with_alike hb (failsFirst 2) 0 () (.inr rfl) [] thirdTime.tail 2
  obtain ⟨-, hcalls, -, htally, hone, -⟩ := (hdealt hstops hfollows).2 hdrained hanswer
  exact ⟨hb, hschedule, hstops, hfollows, hdrained, hanswer, hcalls, (hone rfl).trans htally,
    by decide +kernel⟩

end Yard

end Tidemark.Retry
