import Tidemark.Proofs.Retry.Tasks

/-!
# What the moves in a yard enter into its books

Every move in a wired yard enters events into its books (`Yard.Wired.enters_move`): one for whoever
begins or ends something for an item, two for a worker that ends a failed call and gives its item
up, and none for whoever only waits.
-/

namespace Tidemark.Retry

variable {ι κ ω : Type}

/-- The books on a yard do not tell the blocks apart. -/
structure Block.SameBooks (b b' : Block (ℕ × ι) (ℕ × κ)) : Prop where
  held : b.held = b'.held
  tally : b.tally = b'.tally
  stopping : b.stopping = b'.stopping

namespace Yard

/-- Someone's turn enters events into the books. -/
def Enters (y y' : Yard ι κ ω) : Prop :=
  ∀ fates, ∃ fates', Relation.ReflTransGen (Books.Step y.block.maximumAttempts)
    (y.books fates) (y'.books fates')

/-- Nothing happens in a turn. -/
theorem Enters.refl (y : Yard ι κ ω) : y.Enters y := fun fates => ⟨fates, .refl⟩

/-- What is measured does not concern the books. -/
theorem Enters.measured {y y' : Yard ι κ ω} (h : y.Enters y') (m : Metrics) :
    y.Enters { y' with metrics := m } := h

/-! ## Posts -/

section Posts

variable {y : Yard ι κ ω} {i : ℕ} {p : Posting (ℕ × ι) (ℕ × κ)}

/-- The books after the step of a post. -/
theorem books_post (b : Block (ℕ × ι) (ℕ × κ)) (holding : List ℕ) (m : Metrics)
    (world : ω × Record) (q : Posting (ℕ × ι) (ℕ × κ)) (fates : List (ℕ × Fate)) :
    books ⟨b, y.posts.set i q, holding, m, world⟩ fates =
      ⟨(y.posts.set i q).flatMap Posting.held ++ b.held, fates, world.2, b.tally,
        (y.posts.map Posting.answer?).set i q.answer?, b.stopping⟩ := by
  unfold books
  rw [List.map_set]
  rfl

/-- The books after a step that does not end a post. -/
theorem books_silent (hp : y.posts[i]? = some p) (q : Posting (ℕ × ι) (ℕ × κ))
    (hq : q.answer? = p.answer?) (b : Block (ℕ × ι) (ℕ × κ)) (holding : List ℕ) (m : Metrics)
    (world : ω × Record) (fates : List (ℕ × Fate)) :
    books ⟨b, y.posts.set i q, holding, m, world⟩ fates =
      ⟨(y.posts.set i q).flatMap Posting.held ++ b.held, fates, world.2, b.tally,
        y.posts.map Posting.answer?, b.stopping⟩ := by
  obtain ⟨hi, rfl⟩ := List.getElem?_eq_some_iff.mp hp
  have hsame : (y.posts.map Posting.answer?).set i y.posts[i].answer? =
      y.posts.map Posting.answer? := by
    rw [← List.map_set, List.set_getElem_self]
  rw [books_post, hq, hsame]

/-- A post whose item is still outside is refused. -/
theorem enters_refusal {x : Held} (hp : y.posts[i]? = some p) (hx : p.held = [x]) (hid : x.id = i)
    (hcalling : x.calling = false) (hinside : x.inside = false) {b : Block (ℕ × ι) (ℕ × κ)}
    (hb : b.SameBooks y.block) (holding : List ℕ) :
    y.Enters
      ⟨b, y.posts.set i (.done (.error (.error .shutdown))), holding, y.metrics, y.world⟩ := by
  subst hid
  intro fates
  obtain ⟨others, hheld, hset⟩ := flatMap_set Posting.held hp
  rw [hx] at hheld
  have hstep := @Books.Step.refuses y.block.maximumAttempts (y.books fates) x _ _
    (hheld.append_right _) hcalling hinside
    ((hset (.done (.error (.error .shutdown)))).append_right y.block.held)
  refine ⟨(x.id, .refused) :: fates, .single ?_⟩
  rw [books_post, hb.held, hb.tally, hb.stopping]
  -- The item is outside, so the refusal is also the answer of its post.
  rw [Books.answersTo, hinside] at hstep
  exact hstep

/-- A post whose item is still outside gets it into the queue. -/
theorem enters_entry {item : Item (ℕ × ι)} (hp : y.posts[i]? = some p)
    (hx : p.held = [item.held false false]) (hid : item.item.1 = i) {b : Block (ℕ × ι) (ℕ × κ)}
    (hb : b.SameBooks y.block) (holding : List ℕ) :
    y.Enters ⟨b.push item, y.posts.set i (.done (.ok ())), holding, y.metrics, y.world⟩ := by
  subst hid
  intro fates
  obtain ⟨others, hheld, hset⟩ := flatMap_set Posting.held hp
  rw [hx] at hheld
  have hafter : ((y.posts.set item.item.1 (.done (.ok ()))).flatMap Posting.held ++
      (b.push item).held).Perm (item.held false true :: (others ++ y.block.held)) := by
    rw [← hb.held]
    exact ((hset _).append (Block.held_push item)).trans List.perm_middle
  have hstep := @Books.Step.enters y.block.maximumAttempts (y.books fates)
    (item.held false false) _ _ (hheld.append_right _) rfl rfl hafter
  refine ⟨fates, .single ?_⟩
  rw [books_post]
  unfold Block.push
  rw [hb.tally, hb.stopping]
  exact hstep

/-- A post that goes on with its item where it was leaves the books as they are. -/
theorem enters_waiting {q : Posting (ℕ × ι) (ℕ × κ)} (hp : y.posts[i]? = some p)
    (hq : q.held = p.held) (hanswer : q.answer? = p.answer?) {b : Block (ℕ × ι) (ℕ × κ)}
    (hb : b.SameBooks y.block) (holding : List ℕ) :
    y.Enters ⟨b, y.posts.set i q, holding, y.metrics, y.world⟩ := by
  intro fates
  obtain ⟨others, hheld, hset⟩ := flatMap_set Posting.held hp
  have hafter := hset q
  rw [hq] at hafter
  refine ⟨fates, .single ?_⟩
  rw [books_silent hp q hanswer, hb.held, hb.tally, hb.stopping]
  exact .moves (b := y.books fates) ((hheld.trans hafter.symm).append_right _)

/-- Someone who sends an item gets it into the queue, joins the line or is refused, whether the
block is taken for open (`o`) or not. -/
theorem enters_send {item : Item (ℕ × ι)} (hp : y.posts[i]? = some (.sending item))
    (hof : item.item.1 = i) (o o' : Bool) (holding : List ℕ) :
    y.Enters { y with
      block := { (Posting.send { y.block with isOpen := o } item).2 with isOpen := o' }
      posts := y.posts.set i (Posting.send { y.block with isOpen := o } item).1
      holding := holding } := by
  rcases Posting.send_cases { y.block with isOpen := o } item with
    ⟨hsend, -⟩ | ⟨hsend, -⟩ | ⟨hsend, -⟩
  · rw [hsend]
    exact enters_refusal hp rfl hof rfl rfl ⟨rfl, rfl, rfl⟩ holding
  · rw [hsend]
    exact enters_entry (b := { y.block with isOpen := o' }) hp rfl hof ⟨rfl, rfl, rfl⟩ holding
  · rw [hsend]
    refine enters_waiting (q := .waiting item _) hp rfl rfl ?_ holding
    exact ⟨rfl, rfl, rfl⟩

/-- The turn of someone who posts an item enters events into the books. -/
theorem enters_turn {h : Handler ι κ ω} (hsafe : NeverCrashes h) {now : Moment}
    {b' : Block (ℕ × ι) (ℕ × κ)} {world' : ω × Record} {q : Posting (ℕ × ι) (ℕ × κ)}
    (hp : y.posts[i]? = some p) (hof : p.Of i) (ht : p.Turn h y.block now y.world b' world' q) :
    y.Enters ⟨b', y.posts.set i q, y.holding, y.metrics, world'⟩ := by
  obtain ⟨others, hheld, hset⟩ := flatMap_set Posting.held hp
  cases ht with
  | @begins x hopen call due inner =>
    obtain rfl : x.1 = i := hof
    refine fun fates => ⟨fates, .single ?_⟩
    rw [books_silent hp (.calling _ _ _) rfl]
    exact .begins (b := y.books fates) (x := ⟨x.1, 0, false, false⟩) (hheld.append_right _) rfl
      ((hset _).append_right _)
  | turned => exact enters_refusal hp rfl hof rfl rfl ⟨rfl, rfl, rfl⟩ y.holding
  | @succeeds item call due inner hfinish =>
    obtain ⟨rfl, hcall⟩ := hof
    refine fun fates => ⟨(item.item.1, .completed) :: fates, .single ?_⟩
    rw [books_post, hcall]
    exact .succeeds (b := y.books fates) (x := item.held true false) (hheld.append_right _) rfl
      ((hset _).append_right _)
  | crashes hfinish => exact absurd (congrArg Prod.fst hfinish) (hsafe _ _ _ _)
  | @exhausts item call due inner e hfinish hused =>
    obtain ⟨rfl, hcall⟩ := hof
    refine fun fates => ⟨(item.item.1, .exhausted) :: fates, .single ?_⟩
    rw [books_post, hcall]
    exact .exhausts (b := y.books fates) (x := item.held true false) e (hheld.append_right _) rfl
      hused ((hset _).append_right _)
  | @fails item call due inner e hfinish hleft =>
    obtain ⟨rfl, hcall⟩ := hof
    refine fun fates => ⟨fates, .single ?_⟩
    -- The item goes to the queue next, so its post has no answer yet.
    rw [books_silent hp (.sending _) rfl, hcall]
    exact .fails (b := y.books fates) (x := item.held true false) e (hheld.append_right _) rfl
      hleft ((hset _).append_right _)
  | sends => exact enters_send hp hof y.block.isOpen _ y.holding
  | enters => exact enters_entry hp rfl hof ⟨rfl, rfl, rfl⟩ y.holding
  | waits => exact enters_waiting hp rfl rfl ⟨rfl, rfl, rfl⟩ y.holding
  | ended => exact enters_waiting hp rfl rfl ⟨rfl, rfl, rfl⟩ y.holding

end Posts

/-! ## Workers -/

section Workers

variable {y : Yard ι κ ω} {k : ℕ} {w : Worker (ℕ × ι) (ℕ × κ)} {item : Item (ℕ × ι)}

/-- The item of a worker among the items of the yard. -/
theorem held_worker (hy : y.block.Wired) (hk : y.block.worker? k = some w) :
    ∃ others, y.held.Perm (w.held :: others) ∧
      (∀ v, (y.posts.flatMap Posting.held ++ (y.block.setWorker k v).held).Perm
        (v.held :: others)) ∧
        (y.posts.flatMap Posting.held ++ (y.block.endWorker k).held).Perm others := by
  obtain ⟨others, hheld, hset, hend⟩ := Block.held_worker hy hk
  exact ⟨y.posts.flatMap Posting.held ++ others, (hheld.append_left _).trans List.perm_middle,
    fun v => ((hset v).append_left _).trans List.perm_middle, hend.append_left _⟩

/-- A worker begins a call. -/
theorem enters_call (hy : y.block.Wired) (hk : y.block.worker? k = some w)
    (hw : w.held = item.held false true) (call : κ) (due : Moment) (inner : ω) :
    y.Enters { y with
      block :=
        y.block.setWorker k (.calling ⟨item.item, item.attempts + 1⟩ (item.item.1, call) due)
      world := (inner, y.world.2.begins item.item.1) } := by
  obtain ⟨others, hheld, hset, -⟩ := held_worker hy hk
  rw [hw] at hheld
  exact fun fates => ⟨fates, .single (.begins (b := y.books fates) (x := item.held false true)
    hheld rfl (hset (.calling ⟨item.item, item.attempts + 1⟩ _ _)))⟩

/-- The turn of a worker enters events into the books. -/
theorem enters_turn_worker {h : Handler ι κ ω} (hsafe : NeverCrashes h) (hy : y.block.Wired)
    (hk : y.block.worker? k = some w) {now : Moment} {tally : Tally} {world' : ω × Record}
    {w' : Option (Worker (ℕ × ι) (ℕ × κ))} (ht : w.Turn h y.block now y.world tally world' w') :
    y.Enters { y with block := y.block.goOn k tally w', world := world' } := by
  obtain ⟨others, hheld, hset, hend⟩ := held_worker hy hk
  have hcall {item : Item (ℕ × ι)} {call : ℕ × κ} {due : Moment}
      (hw : w = .calling item call due) : call.1 = item.item.1 := by
    subst hw
    obtain ⟨before, after, hworkers, -⟩ := List.lookup_eq_some_iff.mp hk
    exact hy.calls (k, .calling item call due) (by simp [hworkers])
  cases ht with
  | begins _ call due inner => exact enters_call hy hk rfl call due inner
  | resumes _ call due inner => exact enters_call hy hk rfl call due inner
  | @rests item =>
    exact fun fates => ⟨fates, .single (.moves (b := y.books fates)
      (hheld.trans (hset (.resting item _)).symm))⟩
  | @turnsAway item _ hstopped =>
    exact fun fates => ⟨(item.item.1, .abandoned) :: fates,
      .single (.abandons (b := y.books fates) hheld rfl rfl hstopped hend)⟩
  | @abandons item _ hstopped =>
    exact fun fates => ⟨(item.item.1, .abandoned) :: fates,
      .single (.abandons (b := y.books fates) hheld rfl rfl hstopped hend)⟩
  | @succeeds item =>
    rw [hcall rfl]
    exact fun fates => ⟨(item.item.1, .completed) :: fates,
      .single (.succeeds (b := y.books fates) hheld rfl hend)⟩
  | crashes hfinish => exact absurd (congrArg Prod.fst hfinish) (hsafe _ _ _ _)
  | @exhausts item _ _ _ e _ hused =>
    rw [hcall rfl]
    exact fun fates => ⟨(item.item.1, .exhausted) :: fates,
      .single (.exhausts (b := y.books fates) e hheld rfl hused hend)⟩
  | @fails item _ _ _ e _ hleft =>
    rw [hcall rfl]
    exact fun fates => ⟨fates, .single (.fails (b := y.books fates) e hheld rfl hleft
      (hset (.resting item _)))⟩
  | @givesUp item _ _ _ e _ hleft hstopped =>
    rw [hcall rfl]
    intro fates
    -- Two events: the call has failed, and then the item is given up. Between them the item is in
    -- no place where the yard would list it, hence the books by hand.
    let failed : Books :=
      { y.books fates with
        held := item.held false true :: others
        record := y.world.2.ends item.item.1 (.error (.error e))
        tally := { y.block.tally with failedAttempts := y.block.tally.failedAttempts + 1 } }
    have hfails : Books.Step y.block.maximumAttempts (y.books fates) failed :=
      .fails (b := y.books fates) (x := item.held true true) e hheld rfl hleft (List.Perm.refl _)
    exact ⟨(item.item.1, .abandoned) :: fates, .tail (.single hfails)
      (.abandons (b := failed) (List.Perm.refl _) rfl rfl hstopped hend)⟩

/-- A worker takes a step. -/
theorem enters_stepWorker {h : Handler ι κ ω} (hsafe : NeverCrashes h) (hy : y.block.Wired)
    (k : ℕ) (now : Moment) : y.Enters (y.stepWorker h k now) := by
  unfold stepWorker
  cases hk : y.block.worker? k with
  | none =>
    unfold Block.stepWorker
    simp only [hk]
    exact .refl y
  | some w =>
    obtain ⟨tally, w', ht, hblock⟩ := Block.stepWorker_turn h y.metrics hk now y.world
    have henters := (enters_turn_worker hsafe hy hk ht).measured
      (y.block.stepWorker (audited h) y.metrics k now y.world).2.1
    rwa [← hblock] at henters

/-- A worker that begins a further attempt after all. -/
theorem enters_overrun (h : Handler ι κ ω) (hy : y.block.Wired) (k : ℕ) (now : Moment) :
    y.Enters (y.overrun h k now) := by
  unfold overrun
  cases hk : y.block.worker? k with
  | none => exact .refl y
  | some w =>
    cases w with
    | starting => exact .refl y
    | calling => exact .refl y
    | resting item due =>
      obtain ⟨call, due', inner, hattempt⟩ := y.block.attempt_audited h k item now y.world
      simp only [hattempt]
      exact enters_call hy hk rfl call due' inner

end Workers

/-! ## Moves -/

variable {y : Yard ι κ ω}

/-- The dispatcher takes a step. -/
theorem enters_stepDispatcher (y : Yard ι κ ω) : y.Enters y.stepDispatcher := by
  rcases y.stepDispatcher_cases with hstep | ⟨hstep, -⟩
  · rw [hstep]
    exact .refl y
  · obtain ⟨hheld, htally, hstopping⟩ := Block.held_stepDispatcher y.block
    rw [hstep]
    refine fun fates => ⟨fates, .single ?_⟩
    unfold books
    rw [htally, hstopping]
    exact .moves (b := y.books fates) (hheld.symm.append_left _)

/-- A post that has its turn takes its next step. -/
theorem Wired.enters_stepPoster {h : Handler ι κ ω} (hsafe : NeverCrashes h) (hy : y.Wired) (i : ℕ)
    (now : Moment) : y.Enters (y.stepPoster h i now) := by
  rcases y.stepPoster_cases h i now with hstep | ⟨p, hp, -, hstep⟩ | ⟨item, hp, -, hstep⟩
  · rw [hstep]
    exact .refl y
  · rw [hstep]
    exact (enters_turn hsafe hp (hy.posts i p hp)
      (p.step_turn h y.block y.metrics now y.world)).measured _
  · rw [hstep]
    exact enters_send hp (hy.posts i _ hp) true _ _

/-- Someone begins to post an item. -/
theorem enters_posts {p : Posting (ℕ × ι) (ℕ × κ)}
    (hp : p.held = [⟨y.posts.length, 0, false, false⟩]) (hanswer : p.answer? = none) :
    y.Enters { y with posts := y.posts ++ [p] } := by
  refine fun fates => ⟨fates, .single ?_⟩
  have hheld : ((y.posts ++ [p]).flatMap Posting.held ++ y.block.held).Perm
      (⟨(y.books fates).answers.length, 0, false, false⟩ :: y.held) := by
    show List.Perm _ (⟨(y.posts.map Posting.answer?).length, 0, false, false⟩ :: y.held)
    rw [List.flatMap_append, List.flatMap_singleton, hp, List.length_map, List.append_assoc]
    exact List.perm_middle
  have hopens := @Books.Step.opens y.block.maximumAttempts (y.books fates) _ hheld
  unfold books
  rw [List.map_append, List.map_singleton, hanswer]
  exact hopens

/-- A move enters events into the books. -/
theorem Wired.enters_move {h : Handler ι κ ω} (hsafe : NeverCrashes h) (hy : y.Wired)
    (m : Move ι) : y.Enters (y.move h m) := by
  cases m with
  | post item => exact enters_posts rfl rfl
  | postAsync item => exact enters_posts rfl rfl
  | poster i now => exact hy.enters_stepPoster hsafe i now
  | holds i =>
    show y.Enters (y.hold i)
    rcases y.hold_cases i with hstep | ⟨hstep, -⟩
    · rw [hstep]
      exact .refl y
    · rw [hstep]
      exact fun fates => ⟨fates, .refl⟩
  | dispatcher => exact enters_stepDispatcher y
  | worker k now => exact enters_stepWorker hsafe hy.block k now
  | overruns k now => exact enters_overrun h hy.block k now
  | drain => exact fun fates => ⟨fates, .refl⟩
  | shutdown => exact fun fates => ⟨fates, .single .stops⟩
  | signals => exact fun fates => ⟨fates, .single .stops⟩

end Yard

end Tidemark.Retry
