import Mathlib.Data.List.Count
import Mathlib.Data.List.Nodup
import Mathlib.Data.List.Perm.Basic
import Mathlib.Data.List.Range
import Mathlib.Logic.Relation
import Mathlib.Tactic.SplitIfs
import Tidemark.Retry.Block

/-!
# Books on the items of a retry block

Items that are posted go by the number of their post. The `Books` of a block list the items that
someone still has to deal with (`Held`), and what became of all others (`Fate`), besides the calls
of the handler, the tally of the block and the answers of the posts. A `Step` enters one event into
the books. It keeps them `Correct`: every item has one entry, every entry agrees with the calls that
were made for the item, and the tally counts the entries. So the tally of books in which no item is
held any more accounts for every post that was accepted (`Books.Correct.balance`).
-/

namespace Tidemark.Retry

/-- The calls of a handler, by the numbers of the items. -/
structure Record where
  /-- The calls that were begun. -/
  begun : List ℕ := []
  /-- The calls that succeeded. -/
  succeeded : List ℕ := []
  /-- The calls that failed. -/
  failed : List ℕ := []

/-- Notes that a call begins. -/
def Record.begins (r : Record) (id : ℕ) : Record := { r with begun := id :: r.begun }

/-- Notes the end of a call. A crash is no outcome. -/
def Record.ends (r : Record) (id : ℕ) : Outcome Unit → Record
  | .ok () => { r with succeeded := id :: r.succeeded }
  | .error (.error _) => { r with failed := id :: r.failed }
  | .error (.crash _) => r

/-- The end of a call is no beginning of one. -/
theorem Record.begun_ends (r : Record) (id : ℕ) (outcome : Outcome Unit) :
    (r.ends id outcome).begun = r.begun := by
  rcases outcome with (e | cause) | ⟨⟩
  all_goals rfl

/-- An item that someone still has to deal with. -/
structure Held where
  /-- The number of the item. -/
  id : ℕ
  attempts : ℕ
  /-- A call for the item is under way. -/
  calling : Bool
  /-- The block has accepted the item. -/
  inside : Bool

/-- What became of an item. -/
inductive Fate where
  | completed | exhausted | abandoned
  /-- The block was closed and did not accept the item. -/
  | refused
  deriving DecidableEq

/-- What the post of an item is answered that has met its fate. -/
def Fate.answer : Fate → Outcome Unit
  | refused => .error (.error .shutdown)
  | completed | exhausted | abandoned => .ok ()

/-- The books on the items of a block. -/
structure Books where
  held : List Held
  fates : List (ℕ × Fate)
  record : Record
  tally : Tally
  /-- The answers of the posts, as far as they were given. -/
  answers : List (Option (Outcome Unit))
  /-- Items that wait for a further attempt are given up. -/
  stopped : Bool

/-- What is known about an item. -/
structure View where
  /-- How many calls were begun for it. -/
  begun : ℕ
  /-- How many calls for it succeeded. -/
  succeeded : ℕ
  /-- How many calls for it failed. -/
  failed : ℕ
  /-- The answer of its post, if there is such a post. -/
  answer : Option (Option (Outcome Unit))

namespace Books

/-- What is known about an item. -/
def view (b : Books) (id : ℕ) : View :=
  ⟨b.record.begun.count id, b.record.succeeded.count id, b.record.failed.count id, b.answers[id]?⟩

/-- The answers after an item has met its fate. A post whose item was accepted has its answer. -/
def answersTo (b : Books) (x : Held) (f : Fate) : List (Option (Outcome Unit)) :=
  if x.inside then b.answers else b.answers.set x.id (some f.answer)

/-- The events that are entered into the books of a block with so many attempts for an item. -/
inductive Step (limit : ℕ) (b : Books) : Books → Prop where
  /-- Items change places. -/
  | moves {held : List Held} (h : b.held.Perm held) : Step limit b { b with held := held }
  /-- Someone begins to post an item. -/
  | opens {held : List Held} (h : held.Perm (⟨b.answers.length, 0, false, false⟩ :: b.held)) :
    Step limit b { b with held := held, answers := b.answers ++ [none] }
  /-- A call is begun. -/
  | begins {x : Held} {rest held : List Held} (h : b.held.Perm (x :: rest))
    (hcalling : x.calling = false)
    (h' : held.Perm ({ x with attempts := x.attempts + 1, calling := true } :: rest)) :
    Step limit b { b with held := held, record := b.record.begins x.id }
  /-- A call succeeds. -/
  | succeeds {x : Held} {rest held : List Held} (h : b.held.Perm (x :: rest))
    (hcalling : x.calling = true) (h' : held.Perm rest) :
    Step limit b { b with
      held := held
      fates := (x.id, .completed) :: b.fates
      record := b.record.ends x.id (.ok ())
      tally := { b.tally with completed := b.tally.completed + 1 }
      answers := b.answersTo x .completed }
  /-- A call fails that was not the last attempt. -/
  | fails {x : Held} {rest held : List Held} (e : Error) (h : b.held.Perm (x :: rest))
    (hcalling : x.calling = true) (hleft : x.attempts < limit)
    (h' : held.Perm ({ x with calling := false } :: rest)) :
    Step limit b { b with
      held := held
      record := b.record.ends x.id (.error (.error e))
      tally := { b.tally with failedAttempts := b.tally.failedAttempts + 1 } }
  /-- The last attempt fails. -/
  | exhausts {x : Held} {rest held : List Held} (e : Error) (h : b.held.Perm (x :: rest))
    (hcalling : x.calling = true) (hused : limit ≤ x.attempts) (h' : held.Perm rest) :
    Step limit b { b with
      held := held
      fates := (x.id, .exhausted) :: b.fates
      record := b.record.ends x.id (.error (.error e))
      tally := { b.tally with
        failedAttempts := b.tally.failedAttempts + 1
        exhausted := b.tally.exhausted + 1 }
      answers := b.answersTo x .exhausted }
  /-- The block accepts an item. -/
  | enters {x : Held} {rest held : List Held} (h : b.held.Perm (x :: rest))
    (hcalling : x.calling = false) (hinside : x.inside = false)
    (h' : held.Perm ({ x with inside := true } :: rest)) :
    Step limit b { b with held := held, answers := b.answers.set x.id (some (.ok ())) }
  /-- The block does not accept an item. -/
  | refuses {x : Held} {rest held : List Held} (h : b.held.Perm (x :: rest))
    (hcalling : x.calling = false) (hinside : x.inside = false) (h' : held.Perm rest) :
    Step limit b { b with
      held := held
      fates := (x.id, .refused) :: b.fates
      answers := b.answersTo x .refused }
  /-- The block was stopped and gives an item up. -/
  | abandons {x : Held} {rest held : List Held} (h : b.held.Perm (x :: rest))
    (hcalling : x.calling = false) (hinside : x.inside = true) (hstopped : b.stopped = true)
    (h' : held.Perm rest) :
    Step limit b { b with
      held := held
      fates := (x.id, .abandoned) :: b.fates
      tally := { b.tally with abandoned := b.tally.abandoned + 1 } }
  /-- The block is stopped. -/
  | stops : Step limit b { b with stopped := true }

end Books

/-! ## Entries -/

/-- An entry of an item that is held agrees with what is known about the item. -/
structure Held.Fits (limit : ℕ) (x : Held) (v : View) : Prop where
  begun : v.begun = x.attempts
  succeeded : v.succeeded = 0
  failed : v.failed + x.calling.toNat = x.attempts
  /-- Attempts are left, unless the last one is under way. -/
  left : x.attempts + (!x.calling).toNat ≤ limit
  answer : v.answer = some (if x.inside then some (.ok ()) else none)

/-- The calls that failed or succeeded for an item that has met its fate. -/
def Fate.Ended (limit : ℕ) (v : View) : Fate → Prop
  | completed => 0 < v.succeeded
  | exhausted => v.succeeded = 0 ∧ v.failed = limit
  | abandoned => v.succeeded = 0 ∧ v.failed < limit
  | refused => True

/-- The fate of an item agrees with what is known about the item. -/
structure Fate.Fits (limit : ℕ) (f : Fate) (v : View) : Prop where
  begun : v.begun ≤ limit
  answer : v.answer = some (some f.answer)
  ended : f.Ended limit v

namespace Books

/-- Every item has one entry, which agrees with what is known about the item. -/
structure Placed (limit : ℕ) (b : Books) : Prop where
  ids : (b.held.map Held.id ++ b.fates.map Prod.fst).Perm (List.range b.answers.length)
  held : ∀ x ∈ b.held, x.Fits limit (b.view x.id)
  fates : ∀ y ∈ b.fates, y.2.Fits limit (b.view y.1)
  /-- Nothing is known about items that were not posted. -/
  unknown : ∀ i, b.answers.length ≤ i → b.view i = ⟨0, 0, 0, none⟩

/-- The tally counts the fates. -/
structure Tallied (b : Books) : Prop where
  completed : b.tally.completed = b.fates.countP (·.2 = .completed)
  exhausted : b.tally.exhausted = b.fates.countP (·.2 = .exhausted)
  abandoned : b.tally.abandoned = b.fates.countP (·.2 = .abandoned)
  failedAttempts : b.tally.failedAttempts = b.record.failed.length
  /-- Nothing is given up before the block is stopped. -/
  kept : b.stopped = false → b.tally.abandoned = 0

/-- The books are in order. -/
structure Correct (limit : ℕ) (b : Books) : Prop where
  placed : b.Placed limit
  tallied : b.Tallied

/-! ## Changing one entry -/

section Entry

variable {limit : ℕ} {b b' : Books} {x : Held} {rest : List Held}

/-- The item that is entered first is one of the items, and no other entry is about it. -/
theorem Placed.alone (hb : b.Placed limit) (h : b.held.Perm (x :: rest)) :
    x.id < b.answers.length ∧ (∀ y ∈ rest, y.id ≠ x.id) ∧ ∀ y ∈ b.fates, y.1 ≠ x.id := by
  have hids : (x.id :: (rest.map Held.id ++ b.fates.map Prod.fst)).Perm
      (List.range b.answers.length) :=
    ((h.map Held.id).append_right _).symm.trans hb.ids
  obtain ⟨hnew, -⟩ := List.nodup_cons.mp (hids.symm.nodup List.nodup_range)
  refine ⟨List.mem_range.mp (hids.mem_iff.mp List.mem_cons_self), fun y hy heq => hnew ?_,
    fun y hy heq => hnew ?_⟩
  · exact List.mem_append_left _ (heq ▸ List.mem_map_of_mem hy)
  · exact List.mem_append_right _ (heq ▸ List.mem_map_of_mem hy)

/-- Entries that are about other items stay right. -/
theorem Placed.others (hb : b.Placed limit) (h : b.held.Perm (x :: rest))
    (hlength : b'.answers.length = b.answers.length)
    (hview : ∀ i, i ≠ x.id → b'.view i = b.view i) :
    (∀ y ∈ rest, y.Fits limit (b'.view y.id)) ∧ (∀ y ∈ b.fates, y.2.Fits limit (b'.view y.1)) ∧
      ∀ i, b'.answers.length ≤ i → b'.view i = ⟨0, 0, 0, none⟩ := by
  obtain ⟨hid, hrest, hfates⟩ := hb.alone h
  refine ⟨fun y hy => ?_, fun y hy => ?_, fun i hi => ?_⟩
  · rw [hview _ (hrest y hy)]
    exact hb.held y (h.mem_iff.mpr (List.mem_cons_of_mem x hy))
  · rw [hview _ (hfates y hy)]
    exact hb.fates y hy
  · rw [hlength] at hi
    rw [hview i (by omega)]
    exact hb.unknown i hi

/-- The entry of an item that is held changes. -/
theorem Placed.changes (hb : b.Placed limit) (h : b.held.Perm (x :: rest)) {x' : Held}
    (h' : b'.held.Perm (x' :: rest)) (hid : x'.id = x.id) (hfates : b'.fates = b.fates)
    (hlength : b'.answers.length = b.answers.length)
    (hview : ∀ i, i ≠ x.id → b'.view i = b.view i) (hfits : x'.Fits limit (b'.view x.id)) :
    b'.Placed limit := by
  obtain ⟨hrest, hothers, hunknown⟩ := hb.others h hlength hview
  refine ⟨?_, fun y hy => ?_, hfates ▸ hothers, hunknown⟩
  · have hmap : (b'.held.map Held.id).Perm (x.id :: rest.map Held.id) := hid ▸ h'.map Held.id
    have hperm : (b'.held.map Held.id).Perm (b.held.map Held.id) :=
      hmap.trans (h.map Held.id).symm
    rw [hfates, hlength]
    exact (hperm.append_right _).trans hb.ids
  · rcases List.mem_cons.mp (h'.mem_iff.mp hy) with rfl | hmem
    · exact hid ▸ hfits
    · exact hrest y hmem

/-- An item that was held meets its fate. -/
theorem Placed.settles (hb : b.Placed limit) (h : b.held.Perm (x :: rest)) {f : Fate}
    (h' : b'.held.Perm rest) (hfates : b'.fates = (x.id, f) :: b.fates)
    (hlength : b'.answers.length = b.answers.length)
    (hview : ∀ i, i ≠ x.id → b'.view i = b.view i) (hfits : f.Fits limit (b'.view x.id)) :
    b'.Placed limit := by
  obtain ⟨hrest, hothers, hunknown⟩ := hb.others h hlength hview
  refine ⟨?_, fun y hy => hrest y (h'.mem_iff.mp hy), ?_, hunknown⟩
  · have hperm : (b'.held.map Held.id ++ b'.fates.map Prod.fst).Perm
        (b.held.map Held.id ++ b.fates.map Prod.fst) := by
      rw [hfates, List.map_cons]
      exact ((h'.map _).append_right _).trans (List.perm_middle.trans
        ((h.map Held.id).append_right _).symm)
    rw [hlength]
    exact hperm.trans hb.ids
  · rw [hfates]
    exact List.forall_mem_cons.mpr ⟨hfits, hothers⟩

/-- The entry of an item that is held agrees with what is known about it. -/
theorem Placed.fits (hb : b.Placed limit) (h : b.held.Perm (x :: rest)) :
    x.Fits limit (b.view x.id) :=
  hb.held x (h.mem_iff.mpr List.mem_cons_self)

/-- The fate of an item is the answer of its post. -/
theorem answersTo_self (hb : b.Placed limit) (h : b.held.Perm (x :: rest)) {f : Fate}
    (hf : x.inside = true → f.answer = .ok ()) :
    (b.answersTo x f)[x.id]? = some (some f.answer) := by
  have hanswer : b.answers[x.id]? = some (if x.inside then some (.ok ()) else none) :=
    (hb.fits h).answer
  unfold answersTo
  split_ifs with hinside
  · rw [hanswer, if_pos hinside, hf hinside]
  · exact List.getElem?_set_self (hb.alone h).1

/-- The fate of an item is no answer to other posts. -/
theorem answersTo_ne {f : Fate} {i : ℕ} (hi : i ≠ x.id) :
    (b.answersTo x f)[i]? = b.answers[i]? := by
  unfold answersTo
  split_ifs
  · rfl
  · exact List.getElem?_set_ne hi.symm

/-- The fate of an item adds no post. -/
theorem length_answersTo {f : Fate} : (b.answersTo x f).length = b.answers.length := by
  unfold answersTo
  split_ifs
  · rfl
  · exact List.length_set

end Entry

/-! ## Events -/

/-- Someone who begins to post an item adds an entry to the books. -/
theorem Placed.opens {limit : ℕ} {b : Books} (hb : b.Placed limit) (hlimit : 0 < limit)
    {held : List Held} (hheld : held.Perm (⟨b.answers.length, 0, false, false⟩ :: b.held)) :
    Placed limit { b with held := held, answers := b.answers ++ [none] } := by
  have hlength : (b.answers ++ [none]).length = b.answers.length + 1 := by simp
  have hold (i : ℕ) (hi : i < b.answers.length) :
      view { b with held := held, answers := b.answers ++ [none] } i = b.view i := by
    simp only [view, List.getElem?_append_left hi]
  -- Every entry is about an item that was posted before.
  have hids (i : ℕ) (hi : i ∈ b.held.map Held.id ++ b.fates.map Prod.fst) :
      i < b.answers.length := List.mem_range.mp (hb.ids.mem_iff.mp hi)
  refine ⟨?_, fun y hy => ?_, fun y hy => ?_, fun i hi => ?_⟩
  · have hadded : (held.map Held.id ++ b.fates.map Prod.fst).Perm
        (b.answers.length :: List.range b.answers.length) :=
      ((hheld.map Held.id).append_right _).trans (hb.ids.cons _)
    rw [hlength, List.range_succ]
    exact hadded.trans (List.perm_append_singleton _ _).symm
  · rcases List.mem_cons.mp (hheld.mem_iff.mp hy) with rfl | hmem
    · have hnothing := hb.unknown b.answers.length (le_refl _)
      simp only [view, View.mk.injEq] at hnothing
      exact ⟨hnothing.1, hnothing.2.1, hnothing.2.2.1, hlimit, List.getElem?_concat_length⟩
    · rw [hold y.id (hids _ (List.mem_append_left _ (List.mem_map_of_mem hmem)))]
      exact hb.held y hmem
  · rw [hold y.1 (hids _ (List.mem_append_right _ (List.mem_map_of_mem hy)))]
    exact hb.fates y hy
  · rw [hlength] at hi
    have hnothing := hb.unknown i (by omega)
    simp only [view, View.mk.injEq] at hnothing ⊢
    exact ⟨hnothing.1, hnothing.2.1, hnothing.2.2.1, List.getElem?_eq_none (by omega)⟩

/-- An event keeps one entry for every item. -/
theorem Step.placed {limit : ℕ} {b b' : Books} (h : Step limit b b') (hlimit : 0 < limit)
    (hb : b.Placed limit) : b'.Placed limit := by
  cases h with
  | moves hheld =>
    exact ⟨((hheld.map Held.id).symm.append_right _).trans hb.ids,
      fun y hy => hb.held y (hheld.mem_iff.mpr hy), hb.fates, hb.unknown⟩
  | stops => exact ⟨hb.ids, hb.held, hb.fates, hb.unknown⟩
  | opens hheld => exact hb.opens hlimit hheld
  | @begins x rest held hheld hcalling hheld' =>
    obtain ⟨hbegun, hsucceeded, hfailed, hleft, hanswer⟩ := hb.fits hheld
    rw [hcalling] at hfailed hleft
    refine hb.changes hheld hheld' rfl rfl rfl (fun i hi => ?_)
      ⟨?_, hsucceeded, congrArg (· + 1) hfailed, hleft, hanswer⟩
    · simp only [view, Record.begins, List.count_cons_of_ne hi.symm]
    · show (x.id :: b.record.begun).count x.id = x.attempts + 1
      rw [List.count_cons_self]
      exact congrArg (· + 1) hbegun
  | @succeeds x rest held hheld hcalling hheld' =>
    obtain ⟨hbegun, -, -, hleft, -⟩ := hb.fits hheld
    refine hb.settles hheld hheld' rfl length_answersTo (fun i hi => ?_)
      ⟨?_, answersTo_self hb hheld fun _ => rfl, ?_⟩
    · simp only [view, Record.ends, List.count_cons_of_ne hi.symm, answersTo_ne hi]
    · exact hbegun.le.trans (le_trans (Nat.le_add_right _ _) hleft)
    · show 0 < (x.id :: b.record.succeeded).count x.id
      rw [List.count_cons_self]
      exact Nat.succ_pos _
  | @fails x rest held e hheld hcalling hleft hheld' =>
    obtain ⟨hbegun, hsucceeded, hfailed, -, hanswer⟩ := hb.fits hheld
    rw [hcalling] at hfailed
    refine hb.changes hheld hheld' rfl rfl rfl (fun i hi => ?_)
      ⟨hbegun, hsucceeded, ?_, hleft, hanswer⟩
    · simp only [view, Record.ends, List.count_cons_of_ne hi.symm]
    · show (x.id :: b.record.failed).count x.id + 0 = x.attempts
      rw [List.count_cons_self]
      exact hfailed
  | @exhausts x rest held e hheld hcalling hused hheld' =>
    obtain ⟨hbegun, hsucceeded, hfailed, hleft, -⟩ := hb.fits hheld
    rw [hcalling] at hfailed hleft
    -- The item has had all of its attempts, and each of them has failed.
    have hall : x.attempts = limit := le_antisymm hleft hused
    refine hb.settles hheld hheld' rfl length_answersTo (fun i hi => ?_)
      ⟨hbegun.le.trans hall.le, answersTo_self hb hheld fun _ => rfl, hsucceeded, ?_⟩
    · simp only [view, Record.ends, List.count_cons_of_ne hi.symm, answersTo_ne hi]
    · show (x.id :: b.record.failed).count x.id = limit
      rw [List.count_cons_self]
      exact hfailed.trans hall
  | @enters x rest held hheld hcalling hinside hheld' =>
    obtain ⟨hbegun, hsucceeded, hfailed, hleft, -⟩ := hb.fits hheld
    refine hb.changes hheld hheld' rfl rfl List.length_set (fun i hi => ?_)
      ⟨hbegun, hsucceeded, hfailed, hleft, List.getElem?_set_self (hb.alone hheld).1⟩
    simp only [view, List.getElem?_set_ne hi.symm]
  | @refuses x rest held hheld hcalling hinside hheld' =>
    obtain ⟨hbegun, -, -, hleft, -⟩ := hb.fits hheld
    refine hb.settles hheld hheld' rfl length_answersTo (fun i hi => ?_)
      ⟨?_, answersTo_self hb hheld fun h => ?_, trivial⟩
    · simp only [view, answersTo_ne hi]
    · exact hbegun.le.trans (le_trans (Nat.le_add_right _ _) hleft)
    · rw [hinside] at h
      cases h
  | @abandons x rest held hheld hcalling hinside hstopped hheld' =>
    obtain ⟨hbegun, hsucceeded, hfailed, hleft, hanswer⟩ := hb.fits hheld
    rw [hcalling] at hfailed hleft
    have hattempts : x.attempts < limit := hleft
    have hfailures : (b.view x.id).failed = x.attempts := hfailed
    refine hb.settles hheld hheld' rfl rfl (fun i _ => rfl)
      ⟨hbegun.le.trans hattempts.le, ?_, hsucceeded, hfailures.trans_lt hattempts⟩
    rw [hinside] at hanswer
    exact hanswer

/-- An event keeps the tally. -/
theorem Step.tallied {limit : ℕ} {b b' : Books} (h : Step limit b b') (hb : b.Tallied) :
    b'.Tallied := by
  obtain ⟨hcompleted, hexhausted, habandoned, hfailed, hkept⟩ := hb
  cases h with
  | moves | opens | begins | enters =>
    exact ⟨hcompleted, hexhausted, habandoned, hfailed, hkept⟩
  | stops => exact ⟨hcompleted, hexhausted, habandoned, hfailed, nofun⟩
  | succeeds =>
    refine ⟨?_, ?_, ?_, hfailed, hkept⟩ <;>
      simp [hcompleted, hexhausted, habandoned]
  | fails =>
    refine ⟨hcompleted, hexhausted, habandoned, ?_, hkept⟩
    simp [Record.ends, hfailed]
  | exhausts =>
    refine ⟨?_, ?_, ?_, ?_, hkept⟩ <;>
      simp [Record.ends, hcompleted, hexhausted, habandoned, hfailed]
  | refuses =>
    refine ⟨?_, ?_, ?_, hfailed, hkept⟩ <;>
      simp [hcompleted, hexhausted, habandoned]
  | abandons _ _ _ hstopped =>
    refine ⟨?_, ?_, ?_, hfailed, fun hrunning => ?_⟩
    · simp [hcompleted]
    · simp [hexhausted]
    · simp [habandoned]
    · have hrunning : b.stopped = false := hrunning
      rw [hstopped] at hrunning
      cases hrunning

/-- An event keeps the books in order. -/
theorem Correct.step {limit : ℕ} {b b' : Books} (hb : b.Correct limit) (hlimit : 0 < limit)
    (h : Step limit b b') : b'.Correct limit :=
  ⟨h.placed hlimit hb.placed, h.tallied hb.tallied⟩

/-- Any number of events keeps the books in order. -/
theorem Correct.steps {limit : ℕ} {b b' : Books} (hb : b.Correct limit) (hlimit : 0 < limit)
    (hsteps : Relation.ReflTransGen (Step limit) b b') : b'.Correct limit := by
  induction hsteps with
  | refl => exact hb
  | tail _ hstep ih => exact ih.step hlimit hstep

/-! ## The balance -/

/-- The items whose posts were answered with success. -/
def accepted (b : Books) : List ℕ :=
  (List.range b.answers.length).filter fun i => b.answers[i]? = some (some (.ok ()))

variable {limit : ℕ} {b : Books}

/-- Where no item is held any more, the items that were accepted have met another fate than to be
refused. -/
theorem Placed.accepted_perm (hb : b.Placed limit) (hheld : b.held = []) :
    b.accepted.Perm ((b.fates.filter (·.2 ≠ .refused)).map Prod.fst) := by
  have hids : (b.fates.map Prod.fst).Perm (List.range b.answers.length) := by
    have hall := hb.ids
    rwa [hheld, List.map_nil, List.nil_append] at hall
  have hanswers : (b.fates.map Prod.fst).filter (fun i => b.answers[i]? = some (some (.ok ()))) =
      (b.fates.filter (·.2 ≠ .refused)).map Prod.fst := by
    rw [List.filter_map]
    refine congrArg (List.map _) (List.filter_congr fun y hy => ?_)
    have hanswer : b.answers[y.1]? = some (some y.2.answer) := (hb.fates y hy).answer
    simp only [Function.comp_apply, hanswer]
    cases y.2 <;> simp [Fate.answer]
  rw [← hanswers]
  exact (hids.filter _).symm

/-- Where no item is held any more, the fates of a sort that is not to be refused are as many as the
items that were accepted and of which something holds that tells this sort apart. -/
theorem Placed.countP_accepted (hb : b.Placed limit) (hheld : b.held = []) {f : Fate}
    (hf : f ≠ .refused) {P : ℕ → Bool}
    (hP : ∀ y ∈ b.fates, y.2 ≠ .refused → (P y.1 = true ↔ y.2 = f)) :
    b.accepted.countP P = b.fates.countP (·.2 = f) := by
  rw [(hb.accepted_perm hheld).countP_eq, List.countP_map, List.countP_filter]
  refine List.countP_congr fun y hy => ?_
  by_cases hrefused : y.2 = .refused
  · simp [hrefused, hf.symm]
  · simp [hrefused, hP y hy hrefused]

/-- What is known about an item tells its fate, unless it was refused. -/
theorem Placed.tell (hb : b.Placed limit) {y : ℕ × Fate} (hy : y ∈ b.fates)
    (hrefused : y.2 ≠ .refused) :
    (y.1 ∈ b.record.succeeded ↔ y.2 = .completed) ∧
      (y.1 ∉ b.record.succeeded ∧ b.record.failed.count y.1 = limit ↔ y.2 = .exhausted) ∧
        (y.1 ∉ b.record.succeeded ∧ b.record.failed.count y.1 < limit ↔ y.2 = .abandoned) := by
  obtain ⟨id, f⟩ := y
  have hended : f.Ended limit (b.view id) := (hb.fates _ hy).ended
  cases f with
  | completed =>
    have hmem : id ∈ b.record.succeeded := List.count_pos_iff.mp hended
    simp [hmem]
  | exhausted =>
    obtain ⟨hnone, hall⟩ : b.record.succeeded.count id = 0 ∧ b.record.failed.count id = limit :=
      hended
    simp [List.count_eq_zero.mp hnone, hall]
  | abandoned =>
    obtain ⟨hnone, hsome⟩ : b.record.succeeded.count id = 0 ∧ b.record.failed.count id < limit :=
      hended
    simp [List.count_eq_zero.mp hnone, hsome, hsome.ne]
  | refused => exact absurd rfl hrefused

/-- A fate that is not to be refused is of one of three sorts. -/
theorem countP_fates (fates : List (ℕ × Fate)) :
    fates.countP (·.2 ≠ .refused) = fates.countP (·.2 = .completed) +
      fates.countP (·.2 = .exhausted) + fates.countP (·.2 = .abandoned) := by
  induction fates with
  | nil => rfl
  | cons y rest ih =>
    obtain ⟨id, f⟩ := y
    cases f <;> simp at ih ⊢ <;> omega

/-- Where no item is held any more, the tally accounts for every item that was accepted: it counts
as completed the items for which a call succeeded, as exhausted those for which all attempts failed,
and as abandoned the others. -/
theorem Correct.balance (hb : b.Correct limit) (hheld : b.held = []) :
    b.accepted.length = b.tally.completed + b.tally.exhausted + b.tally.abandoned ∧
      b.tally.completed = b.accepted.countP (· ∈ b.record.succeeded) ∧
        b.tally.exhausted = b.accepted.countP
          (fun i => i ∉ b.record.succeeded ∧ b.record.failed.count i = limit) ∧
          b.tally.abandoned = b.accepted.countP
            (fun i => i ∉ b.record.succeeded ∧ b.record.failed.count i < limit) := by
  obtain ⟨hplaced, hcompleted, hexhausted, habandoned, -, -⟩ := hb
  refine ⟨?_, ?_, ?_, ?_⟩
  · rw [(hplaced.accepted_perm hheld).length_eq, List.length_map, ← List.countP_eq_length_filter,
      countP_fates, hcompleted, hexhausted, habandoned]
  · rw [hcompleted]
    refine (hplaced.countP_accepted hheld (by decide) fun y hy hrefused => ?_).symm
    rw [decide_eq_true_iff]
    exact (hplaced.tell hy hrefused).1
  · rw [hexhausted]
    refine (hplaced.countP_accepted hheld (by decide) fun y hy hrefused => ?_).symm
    rw [decide_eq_true_iff]
    exact (hplaced.tell hy hrefused).2.1
  · rw [habandoned]
    refine (hplaced.countP_accepted hheld (by decide) fun y hy hrefused => ?_).symm
    rw [decide_eq_true_iff]
    exact (hplaced.tell hy hrefused).2.2

/-- No item, held or not, has had more calls than there are attempts. -/
theorem Placed.begun_le (hb : b.Placed limit) (i : ℕ) : b.record.begun.count i ≤ limit := by
  by_cases hi : i < b.answers.length
  · rcases List.mem_append.mp (hb.ids.mem_iff.mpr (List.mem_range.mpr hi)) with hmem | hmem
    · obtain ⟨x, hx, rfl⟩ := List.mem_map.mp hmem
      have hfits := hb.held x hx
      exact hfits.begun.le.trans (le_trans (Nat.le_add_right _ _) hfits.left)
    · obtain ⟨y, hy, rfl⟩ := List.mem_map.mp hmem
      exact (hb.fates y hy).begun
  · have hnothing := hb.unknown i (not_lt.mp hi)
    have hbegun : b.record.begun.count i = 0 := congrArg View.begun hnothing
    omega

end Books

end Tidemark.Retry
