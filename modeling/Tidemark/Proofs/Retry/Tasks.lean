import Tidemark.Proofs.Retry.Yard

/-!
# What the tasks of a retry block do with their turns

Someone who posts an item (`Posting.Turn`) and a worker (`Worker.Turn`) have one case for each thing
that they can do with a turn. Each case says what is counted, what is noted of the calls, and where
the task stands then.
-/

namespace Tidemark.Retry

variable {ι κ ω : Type}

/-! ## Posts -/

/-- What someone who posts an item does with a turn, to the block and to the world. -/
inductive Posting.Turn (h : Handler ι κ ω) (b : Block (ℕ × ι) (ℕ × κ)) (now : Moment)
    (world : ω × Record) : Posting (ℕ × ι) (ℕ × κ) → Block (ℕ × ι) (ℕ × κ) → ω × Record →
      Posting (ℕ × ι) (ℕ × κ) → Prop where
  /-- The first attempt begins. -/
  | begins {x : ℕ × ι} (hopen : b.isOpen = true) (call : κ) (due : Moment) (inner : ω) :
    Turn h b now world (.trying x) b (inner, world.2.begins x.1) (.calling ⟨x, 1⟩ (x.1, call) due)
  /-- The block was closed before the first attempt. -/
  | turned {x : ℕ × ι} (hclosed : b.isOpen = false) :
    Turn h b now world (.trying x) b world (.done (.error (.error .shutdown)))
  /-- The first attempt succeeds. -/
  | succeeds {item : Item (ℕ × ι)} {call : ℕ × κ} {due : Moment} {inner : ω}
    (hfinish : h.finish call.2 now world.1 = (.ok (), inner)) :
    Turn h b now world (.calling item call due)
      { b with tally := { b.tally with completed := b.tally.completed + 1 } }
      (inner, world.2.ends call.1 (.ok ())) (.done (.ok ()))
  /-- The first attempt crashes. -/
  | crashes {item : Item (ℕ × ι)} {call : ℕ × κ} {due : Moment} {inner : ω} {cause : Crash}
    (hfinish : h.finish call.2 now world.1 = (.error (.crash cause), inner)) :
    Turn h b now world (.calling item call due) b (inner, world.2) (.done (.error (.crash cause)))
  /-- The first attempt fails, and no other one is left. -/
  | exhausts {item : Item (ℕ × ι)} {call : ℕ × κ} {due : Moment} {inner : ω} {e : Error}
    (hfinish : h.finish call.2 now world.1 = (.error (.error e), inner))
    (hused : b.maximumAttempts ≤ item.attempts) :
    Turn h b now world (.calling item call due)
      { b with tally := { b.tally with
        failedAttempts := b.tally.failedAttempts + 1, exhausted := b.tally.exhausted + 1 } }
      (inner, world.2.ends call.1 (.error (.error e))) (.done (.ok ()))
  /-- The first attempt fails, and the item is to be put into the queue. -/
  | fails {item : Item (ℕ × ι)} {call : ℕ × κ} {due : Moment} {inner : ω} {e : Error}
    (hfinish : h.finish call.2 now world.1 = (.error (.error e), inner))
    (hleft : item.attempts < b.maximumAttempts) :
    Turn h b now world (.calling item call due)
      { b with tally := { b.tally with failedAttempts := b.tally.failedAttempts + 1 } }
      (inner, world.2.ends call.1 (.error (.error e))) (.sending item)
  /-- The item is sent to the queue. -/
  | sends {item : Item (ℕ × ι)} :
    Turn h b now world (.sending item) (send b item).2 world (send b item).1
  /-- The item gets the place in the queue that was kept for it. -/
  | enters {item : Item (ℕ × ι)} {ticket : ℕ} (hgranted : ticket ∈ b.granted) :
    Turn h b now world (.waiting item ticket)
      ({ b with granted := b.granted.filter (· ≠ ticket) }.push item) world (.done (.ok ()))
  /-- No place in the queue is kept for the item so far. -/
  | waits {item : Item (ℕ × ι)} {ticket : ℕ} (hgranted : ticket ∉ b.granted) :
    Turn h b now world (.waiting item ticket) b world (.waiting item ticket)
  /-- The post has ended. -/
  | ended {outcome : Outcome Unit} : Turn h b now world (.done outcome) b world (.done outcome)

/-- Someone who posts an item takes one of the turns. -/
theorem Posting.step_turn (h : Handler ι κ ω) (p : Posting (ℕ × ι) (ℕ × κ))
    (b : Block (ℕ × ι) (ℕ × κ)) (m : Metrics) (now : Moment) (world : ω × Record) :
    let r := p.step (audited h) b m now world
    p.Turn h b now world r.2.1 r.2.2.2 r.1 := by
  intro r
  cases p with
  | trying x =>
    cases hopen : b.isOpen with
    | true =>
      obtain ⟨call, due, inner, hstart⟩ := audited_start h x now world
      have hr : r = (.calling ⟨x, 1⟩ (x.1, call) due, b, m, (inner, world.2.begins x.1)) := by
        simp only [r, step, if_pos hopen, Block.begin_, hstart]
      rw [hr]
      exact .begins hopen call due inner
    | false =>
      have hr : r = (.done (.error (.error .shutdown)), b, m, world) := by
        simp [r, step, hopen]
      rw [hr]
      exact .turned hopen
  | calling item call due =>
    rcases hfinish : h.finish call.2 now world.1 with ⟨outcome, inner⟩
    have haudited : (audited h).finish call now world =
        (outcome, (inner, world.2.ends call.1 outcome)) := by
      simp only [audited, hfinish]
    rcases outcome with (e | cause) | ⟨⟩
    case ok =>
      simp only [r, step, haudited, Block.record]
      exact .succeeds hfinish
    case error.crash =>
      simp only [r, step, haudited, Block.record]
      exact .crashes hfinish
    case error.error =>
      by_cases hused : b.maximumAttempts ≤ item.attempts
      · simp only [r, step, haudited, Block.record, Block.isExhausted, Block.exhaust,
          decide_eq_true hused, if_true]
        exact .exhausts hfinish hused
      · simp only [r, step, haudited, Block.record, Block.isExhausted, decide_eq_false hused,
          Bool.false_eq_true, if_false]
        exact .fails hfinish (not_le.mp hused)
  | sending item => exact .sends
  | waiting item ticket =>
    by_cases hgranted : ticket ∈ b.granted
    · simp only [r, step, if_pos hgranted]
      exact .enters hgranted
    · simp only [r, step, if_neg hgranted]
      exact .waits hgranted
  | done outcome => exact .ended

/-! ## Workers -/

/-- A block with new counts, in which a worker has gone on or ended. -/
def Block.goOn (b : Block ι κ) (k : ℕ) (tally : Tally) : Option (Worker ι κ) → Block ι κ
  | some v => { b with tally := tally }.setWorker k v
  | none => { b with tally := tally }.endWorker k

/-- A worker that begins an attempt calls for its item, and the beginning of the call is noted. -/
theorem Block.attempt_audited (h : Handler ι κ ω) (b : Block (ℕ × ι) (ℕ × κ)) (k : ℕ)
    (item : Item (ℕ × ι)) (now : Moment) (world : ω × Record) :
    ∃ call due inner, b.attempt (audited h) k item now world =
      (b.setWorker k (.calling ⟨item.item, item.attempts + 1⟩ (item.item.1, call) due),
        (inner, world.2.begins item.item.1)) := by
  obtain ⟨call, due, inner, hstart⟩ := audited_start h item.item now world
  refine ⟨call, due, inner, ?_⟩
  simp only [Block.attempt, Block.begin_, hstart]

/-- What a worker does with a turn: what it counts, what becomes of the world, and where it stands
then, unless it ends. -/
inductive Worker.Turn (h : Handler ι κ ω) (b : Block (ℕ × ι) (ℕ × κ)) (now : Moment)
    (world : ω × Record) : Worker (ℕ × ι) (ℕ × κ) → Tally → ω × Record →
      Option (Worker (ℕ × ι) (ℕ × κ)) → Prop where
  /-- The first attempt begins. -/
  | begins {item : Item (ℕ × ι)} (hfresh : item.attempts = 0) (call : κ) (due : Moment)
    (inner : ω) :
    Turn h b now world (.starting item) b.tally (inner, world.2.begins item.item.1)
      (some (.calling ⟨item.item, item.attempts + 1⟩ (item.item.1, call) due))
  /-- A further attempt begins. -/
  | resumes {item : Item (ℕ × ι)} {due : Moment} (hgoing : b.stopping = false) (call : κ)
    (due' : Moment) (inner : ω) :
    Turn h b now world (.resting item due) b.tally (inner, world.2.begins item.item.1)
      (some (.calling ⟨item.item, item.attempts + 1⟩ (item.item.1, call) due'))
  /-- The worker waits before it makes an attempt after those of someone else. -/
  | rests {item : Item (ℕ × ι)} (hspent : item.attempts ≠ 0) (hgoing : b.stopping = false) :
    Turn h b now world (.starting item) b.tally world
      (some (.resting item (now.wake (b.schedule.delayAfter item.attempts))))
  /-- The item is given up before it has waited, since the block was stopped. -/
  | turnsAway {item : Item (ℕ × ι)} (hspent : item.attempts ≠ 0) (hstopped : b.stopping = true) :
    Turn h b now world (.starting item) b.abandon.tally world none
  /-- The item is given up while it waits, since the block was stopped. -/
  | abandons {item : Item (ℕ × ι)} {due : Moment} (hstopped : b.stopping = true) :
    Turn h b now world (.resting item due) b.abandon.tally world none
  /-- An attempt succeeds. -/
  | succeeds {item : Item (ℕ × ι)} {call : ℕ × κ} {due : Moment} {inner : ω}
    (hfinish : h.finish call.2 now world.1 = (.ok (), inner)) :
    Turn h b now world (.calling item call due)
      { b.tally with completed := b.tally.completed + 1 } (inner, world.2.ends call.1 (.ok ())) none
  /-- An attempt crashes. -/
  | crashes {item : Item (ℕ × ι)} {call : ℕ × κ} {due : Moment} {inner : ω} {cause : Crash}
    (hfinish : h.finish call.2 now world.1 = (.error (.crash cause), inner)) :
    Turn h b now world (.calling item call due) b.tally (inner, world.2) none
  /-- The last attempt fails. -/
  | exhausts {item : Item (ℕ × ι)} {call : ℕ × κ} {due : Moment} {inner : ω} {e : Error}
    (hfinish : h.finish call.2 now world.1 = (.error (.error e), inner))
    (hused : b.maximumAttempts ≤ item.attempts) :
    Turn h b now world (.calling item call due)
      { b.tally with
        failedAttempts := b.tally.failedAttempts + 1, exhausted := b.tally.exhausted + 1 }
      (inner, world.2.ends call.1 (.error (.error e))) none
  /-- An attempt fails, and the worker waits before the next one. -/
  | fails {item : Item (ℕ × ι)} {call : ℕ × κ} {due : Moment} {inner : ω} {e : Error}
    (hfinish : h.finish call.2 now world.1 = (.error (.error e), inner))
    (hleft : item.attempts < b.maximumAttempts) (hgoing : b.stopping = false) :
    Turn h b now world (.calling item call due)
      { b.tally with failedAttempts := b.tally.failedAttempts + 1 }
      (inner, world.2.ends call.1 (.error (.error e)))
      (some (.resting item (now.wake (b.schedule.delayAfter item.attempts))))
  /-- An attempt fails, and the item is given up, since the block was stopped. -/
  | givesUp {item : Item (ℕ × ι)} {call : ℕ × κ} {due : Moment} {inner : ω} {e : Error}
    (hfinish : h.finish call.2 now world.1 = (.error (.error e), inner))
    (hleft : item.attempts < b.maximumAttempts) (hstopped : b.stopping = true) :
    Turn h b now world (.calling item call due)
      { b.tally with
        failedAttempts := b.tally.failedAttempts + 1, abandoned := b.tally.abandoned + 1 }
      (inner, world.2.ends call.1 (.error (.error e))) none

/-- A worker takes one of the turns. -/
theorem Block.stepWorker_turn (h : Handler ι κ ω) {b : Block (ℕ × ι) (ℕ × κ)} (m : Metrics) {k : ℕ}
    {w : Worker (ℕ × ι) (ℕ × κ)} (hk : b.worker? k = some w) (now : Moment) (world : ω × Record) :
    let r := b.stepWorker (audited h) m k now world
    ∃ tally w', w.Turn h b now world tally r.2.2 w' ∧ r.1 = b.goOn k tally w' := by
  intro r
  cases w with
  | starting item =>
    by_cases hfresh : item.attempts = 0
    · obtain ⟨call, due, inner, hattempt⟩ := b.attempt_audited h k item now world
      simp only [r, stepWorker, hk, if_pos hfresh, hattempt]
      exact ⟨_, _, .begins hfresh call due inner, rfl⟩
    · cases hstopping : b.stopping with
      | true =>
        simp only [r, stepWorker, hk, if_neg hfresh, rest, hstopping, if_true]
        exact ⟨_, _, .turnsAway hfresh hstopping, rfl⟩
      | false =>
        simp only [r, stepWorker, hk, if_neg hfresh, rest, hstopping, Bool.false_eq_true, if_false]
        exact ⟨_, _, .rests hfresh hstopping, rfl⟩
  | resting item due =>
    cases hstopping : b.stopping with
    | true =>
      simp only [r, stepWorker, hk, hstopping, if_true]
      exact ⟨_, _, .abandons hstopping, rfl⟩
    | false =>
      obtain ⟨call, due', inner, hattempt⟩ := b.attempt_audited h k item now world
      simp only [r, stepWorker, hk, hstopping, Bool.false_eq_true, if_false, hattempt]
      exact ⟨_, _, .resumes hstopping call due' inner, rfl⟩
  | calling item call due =>
    rcases hfinish : h.finish call.2 now world.1 with ⟨outcome, inner⟩
    have haudited : (audited h).finish call now world =
        (outcome, (inner, world.2.ends call.1 outcome)) := by
      simp only [audited, hfinish]
    rcases outcome with (e | cause) | ⟨⟩
    case ok =>
      simp only [r, stepWorker, hk, haudited, record]
      exact ⟨_, _, .succeeds hfinish, rfl⟩
    case error.crash =>
      simp only [r, stepWorker, hk, haudited, record]
      exact ⟨_, _, .crashes hfinish, rfl⟩
    case error.error =>
      by_cases hused : b.maximumAttempts ≤ item.attempts
      · simp only [r, stepWorker, hk, haudited, record, isExhausted, exhaust,
          decide_eq_true hused, if_true]
        exact ⟨_, _, .exhausts hfinish hused, rfl⟩
      · let failed : Tally := { b.tally with failedAttempts := b.tally.failedAttempts + 1 }
        have hr : r = ({ b with tally := failed }.rest k item now,
            m.recordRetryAttempt b.name false,
            (inner, world.2.ends call.1 (.error (.error e)))) := by
          simp only [r, stepWorker, hk, haudited, record, isExhausted, decide_eq_false hused,
            Bool.false_eq_true, if_false, failed]
        rw [hr, rest]
        split_ifs with hstopping
        · exact ⟨_, _, .givesUp hfinish (not_le.mp hused) hstopping, rfl⟩
        · have hgoing : b.stopping = false := Bool.eq_false_iff.mpr hstopping
          exact ⟨_, _, .fails hfinish (not_le.mp hused) hgoing, rfl⟩

end Tidemark.Retry
