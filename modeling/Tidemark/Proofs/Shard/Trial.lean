import Mathlib.Data.ENat.Basic
import Mathlib.Order.Bounds.Basic
import Tidemark.Proofs.Shard.Coverage

/-!
# One event fails

A `Trial` is a shard whose log, mark and policy stand still, with one event that fails at its first
tries, or at every try, and is retried by the rule for it. What the shard has to do about the events
that lie ahead is its `plan`: every event is tried once, the failing one until it goes through or
the delays of the rule are used up; after each failure but the last one the shard waits, and after
the last one it does nothing any more.

However the events ahead are divided into batches, those ahead of a position go on with those ahead
of a later one (`ahead_eq_append`), and so do the plans (`plan_of_passes`, `plan_of_fails`). The
`Tally` says how the failures counted so far fit what lies ahead.
-/

namespace Tidemark

open LogView

/-- What a shard does about its events. -/
inductive Attempt where
  /-- An event is handed to the projection. -/
  | tries (e : EventRecord) (ok : Bool)
  /-- The shard begins to wait before it tries again. -/
  | rests (d : Duration)
  deriving DecidableEq, Repr

namespace Attempt

/-- The attempt is a try of the event. -/
def isTryOf (e : EventRecord) : Attempt → Bool
  | tries e' _ => e' = e
  | rests _ => false

/-- The attempts of events that go through at once. -/
def once (es : List EventRecord) : List Attempt := es.map (tries · true)

/-- The failures of an event, each with the wait after it. -/
def walk (e : EventRecord) (ds : List Duration) : List Attempt :=
  ds.flatMap fun d => [tries e false, rests d]

end Attempt

open Attempt (once walk)

/-- A shard with one event that fails. Everything else stands still. -/
structure Trial where
  /-- The identity of the shard. -/
  shard : String
  mark : Watched Position
  control : Watched Control
  policy : Policy
  batchSize : ℕ
  /-- The progress on record at the beginning. -/
  start : Position
  /-- The events that can be fetched, at least those up to the mark. -/
  events : List EventRecord
  /-- The event that fails. -/
  event : EventRecord
  /-- The delays of the rule for the failures of the event. -/
  delays : List Duration
  /-- At how many of its first tries the event fails. -/
  failures : ℕ∞
  ascending : events.Pairwise (·.sequence < ·.sequence)
  running : control.value = .run

/-- If it can be represented how far a mark lies above a position, then also how far above the
positions in between. -/
theorem Position.Fits.sub_of_le {mark p q : Position} (h : Fits (mark - p)) (hpq : p ≤ q)
    (hq : q ≤ mark) : Fits (mark - q) :=
  ⟨le_trans (by decide : first ≤ 0) (sub_nonneg.mpr hq), le_trans (sub_le_sub_left hpq _) h.2⟩

namespace Trial

/-- The event fails once more after so many tries. -/
def fails (t : Trial) (n : ℕ) : Bool := decide ((n : ℕ∞) < t.failures)

/-- What the shard counts and measures can be represented. -/
structure Bounded (t : Trial) : Prop where
  /-- How far the mark lies above the progress at the beginning. -/
  lag : Position.Fits (t.mark.value - t.start)
  /-- The tries of the event, in 32 bits. -/
  tries : t.delays.length < 0xFFFFFFFF

variable (t : Trial)

/-! ## Events ahead -/

/-- The events that lie ahead of a position, up to the mark. -/
def ahead (p : Position) : List EventRecord := eventsWithin p t.mark.value t.events

/-- A position that the shard may come to: the one at the beginning, the mark, or the position of an
event. -/
structure Placed (p : Position) : Prop where
  start_le : t.start ≤ p
  le_mark : p ≤ t.mark.value
  place : p = t.start ∨ p = t.mark.value ∨ ∃ e ∈ t.events, e.sequence = p

variable {t} {p q : Position} {e : EventRecord} {es : List EventRecord}

/-- Which events lie ahead of a position. -/
theorem mem_ahead : e ∈ t.ahead p ↔ e ∈ t.events ∧ p < e.sequence ∧ e.sequence ≤ t.mark.value :=
  mem_eventsWithin

/-- The events ahead are in the order of their positions. -/
theorem ahead_pairwise (t : Trial) (p : Position) :
    (t.ahead p).Pairwise (·.sequence < ·.sequence) :=
  t.ascending.filter _

/-- Nothing lies ahead of the mark. -/
theorem ahead_mark (t : Trial) : t.ahead t.mark.value = [] :=
  List.filter_eq_nil_iff.mpr fun e _ => by simp

/-- The events ahead of a position are those up to a later one, and those ahead of that. -/
theorem ahead_eq_append (hpq : p ≤ q) (hq : q ≤ t.mark.value) :
    t.ahead p = eventsWithin p q t.events ++ t.ahead q :=
  eventsWithin_append t.ascending hpq hq

/-- Ahead of the first event that lies ahead are the others. -/
theorem ahead_of_cons (h : t.ahead p = e :: es) : t.ahead e.sequence = es := by
  have hascending := t.ahead_pairwise p
  have hmem : e ∈ t.ahead p := h ▸ List.mem_cons_self
  obtain ⟨-, hp, hmark⟩ := mem_ahead.mp hmem
  have hsplit := ahead_eq_append hp.le hmark
  rw [h] at hascending hsplit
  -- Up to the position of the first event there is that event alone.
  have hupTo : eventsWithin p e.sequence t.events = [e] := by
    have hfirst : eventsWithin p e.sequence t.events =
        (t.ahead p).filter fun x => decide (x.sequence ≤ e.sequence) := by
      unfold ahead eventsWithin
      rw [List.filter_filter]
      refine List.filter_congr fun x _ => ?_
      by_cases hx : x.sequence ≤ e.sequence
      · simp [hx, le_trans hx hmark]
      · simp [hx]
    have hnone : es.filter (fun x => decide (x.sequence ≤ e.sequence)) = [] := by
      refine List.filter_eq_nil_iff.mpr fun x hx => ?_
      simp [(List.pairwise_cons.mp hascending).1 x hx]
    rw [hfirst, h, List.filter_cons_of_pos (by simp), hnone]
  rw [hupTo] at hsplit
  exact (List.cons.inj hsplit).2.symm

/-- The first event that lies ahead is one that the shard may come to. -/
theorem Placed.of_cons (h : t.Placed p) (hahead : t.ahead p = e :: es) : t.Placed e.sequence := by
  obtain ⟨he, hp, hmark⟩ := mem_ahead.mp (hahead ▸ List.mem_cons_self)
  exact ⟨le_trans h.start_le hp.le, hmark, .inr (.inr ⟨e, he, rfl⟩)⟩

/-- How far the mark lies above any position that the shard may come to can be represented. -/
theorem Placed.fits (h : t.Placed p) (hlag : Position.Fits (t.mark.value - t.start)) :
    Position.Fits (t.mark.value - p) :=
  hlag.sub_of_le h.start_le h.le_mark

/-- Where the event comes up next, the shard has come as far as it can come before it. -/
theorem Placed.isGreatest (h : t.Placed p) (hahead : t.ahead p = t.event :: es) :
    IsGreatest (insert t.start {q | ∃ e ∈ t.events, e.sequence = q ∧ q < t.event.sequence}) p := by
  obtain ⟨-, hp, hmark⟩ := mem_ahead.mp (hahead ▸ List.mem_cons_self)
  constructor
  · rcases h.place with hstart | heq | ⟨e, he, hseq⟩
    · exact .inl hstart
    · exact absurd hmark (not_le.mpr (heq ▸ hp))
    · exact .inr ⟨e, he, hseq, hp⟩
  · rintro q (rfl | ⟨e, he, rfl, hlt⟩)
    · exact h.start_le
    · -- Any event above would lie ahead, and so would come up no sooner than the event.
      by_contra hlater
      have hmem : e ∈ t.event :: es :=
        hahead ▸ mem_ahead.mpr ⟨he, not_le.mp hlater, le_trans hlt.le hmark⟩
      have hascending := t.ahead_pairwise p
      rw [hahead] at hascending
      rcases List.mem_cons.mp hmem with rfl | hrest
      · exact absurd hlt (lt_irrefl _)
      · exact absurd hlt (lt_asymm ((List.pairwise_cons.mp hascending).1 e hrest))

/-- The events of a batch are the first ones ahead, and those ahead of its target are the others. -/
theorem ahead_of_fetched {limit : ℕ} (hlimit : 0 < limit) (hp : t.Placed p)
    (hmark : p < t.mark.value) (hes : es = (t.ahead p).take limit) :
    t.ahead p = es ++ t.ahead (Consumer.target es limit t.mark.value) ∧
      p < Consumer.target es limit t.mark.value ∧
        t.Placed (Consumer.target es limit t.mark.value) := by
  let target := Consumer.target es limit t.mark.value
  have hmem : ∀ e ∈ es, e ∈ t.events ∧ p < e.sequence ∧ e.sequence ≤ t.mark.value :=
    fun e he => mem_ahead.mp (List.mem_of_mem_take (hes ▸ he))
  have hascending : es.Pairwise (·.sequence < ·.sequence) :=
    hes ▸ (t.ahead_pairwise p).sublist (List.take_sublist _ _)
  obtain ⟨hbelow, hread, htarget⟩ :=
    Consumer.target_spec limit hascending fun e he => (hmem e he).2.2
  have hlt : p < target := by
    rcases htarget with heq | ⟨-, e, he, heq⟩
    · exact lt_of_lt_of_eq hmark heq.symm
    · exact lt_of_lt_of_eq (hmem e he).2.1 heq.symm
  refine ⟨?_, hlt, le_trans hp.start_le hlt.le, hread, ?_⟩
  · -- What was fetched is all that lies up to the target, as an ascending list of the same events.
    have hupTo : eventsWithin p target t.events = es := by
      suffices hperm : (eventsWithin p target t.events).Perm es from
        hperm.eq_of_pairwise (fun a b _ _ hab hba => absurd hab (lt_asymm hba))
          (t.ascending.filter _) hascending
      refine (List.perm_ext_iff_of_nodup ?_ ?_).mpr fun e => ⟨fun he => ?_, fun he => ?_⟩
      · exact (t.ascending.filter _).imp fun h => ne_of_apply_ne _ h.ne
      · exact hascending.imp fun h => ne_of_apply_ne _ h.ne
      · obtain ⟨hstored, hpe, hle⟩ := mem_eventsWithin.mp he
        subst hes
        exact mem_take_of_le_target hlimit (t.ahead_pairwise p)
          (mem_ahead.mpr ⟨hstored, hpe, le_trans hle hread⟩) hle
      · exact mem_eventsWithin.mpr ⟨(hmem e he).1, (hmem e he).2.1, hbelow e he⟩
    rw [ahead_eq_append hlt.le hread, hupTo]
  · rcases htarget with heq | ⟨-, e, he, heq⟩
    · exact .inr (.inl heq)
    · exact .inr (.inr ⟨e, (hmem e he).1, heq.symm⟩)

/-! ## Plans -/

variable (t)

/-- What is done about the event after so many tries, with some delays left, and whether it goes
through in the end. -/
def calls : List Duration → ℕ → List Attempt × Bool
  | [], n => ([.tries t.event !(t.fails n)], !(t.fails n))
  | d :: left, n =>
    if t.fails n then
      (.tries t.event false :: .rests d :: (calls left (n + 1)).1, (calls left (n + 1)).2)
    else ([.tries t.event true], true)

/-- What is done about the events that lie ahead when the event has been tried so many times. -/
def plan : List EventRecord → ℕ → List Attempt
  | [], _ => []
  | e :: es, n =>
    if e = t.event then
      (t.calls (t.delays.drop n) n).1 ++
        if (t.calls (t.delays.drop n) n).2 then once es else []
    else .tries e true :: plan es n

/-- What is left to be done after the event has failed at a try after so many others. -/
def onward (es : List EventRecord) (n : ℕ) : List Attempt :=
  match t.delays[n]? with
  | some d => .rests d :: t.plan es (n + 1)
  | none => []

variable {t} {n : ℕ}

/-- Before the event, every event is tried once. -/
theorem plan_append {before : List EventRecord} (h : t.event ∉ before) :
    t.plan (before ++ es) n = once before ++ t.plan es n := by
  induction before with
  | nil => rfl
  | cons e before ih =>
    have hne : e ≠ t.event := fun heq => h (heq ▸ List.mem_cons_self)
    rw [List.cons_append, plan, if_neg hne, ih fun hmem => h (List.mem_cons_of_mem _ hmem)]
    rfl

/-- Behind the event, the plan is to try every event once. -/
theorem plan_of_not_mem (h : t.event ∉ es) : t.plan es n = once es := by
  have happend : t.plan (es ++ []) n = once es ++ t.plan [] n := plan_append h
  simpa [plan] using happend

/-- An event that goes through leads on to the events behind it. -/
theorem plan_of_passes (hascending : (e :: es).Pairwise (·.sequence < ·.sequence))
    (h : e = t.event → t.fails n = false) (m : ℕ) (hm : e ≠ t.event → m = n) :
    t.plan (e :: es) n = .tries e true :: t.plan es m := by
  by_cases he : e = t.event
  · -- The event does not occur again, so that its tries do not matter any more.
    have hnot : t.event ∉ es := fun hmem =>
      absurd ((List.pairwise_cons.mp hascending).1 _ hmem) (he ▸ lt_irrefl _)
    rw [plan, if_pos he, plan_of_not_mem hnot]
    cases t.delays.drop n <;> simp [calls, h he, he]
  · rw [plan, if_neg he, hm he]

/-- An event that fails is tried again after the next delay, if there is one. -/
theorem plan_of_fails (h : t.fails n = true) :
    t.plan (t.event :: es) n = .tries t.event false :: t.onward (t.event :: es) n := by
  unfold onward
  cases hd : t.delays[n]? with
  | none =>
    have hdrop : t.delays.drop n = [] := List.drop_eq_nil_iff.mpr (List.getElem?_eq_none_iff.mp hd)
    simp [plan, hdrop, calls, h]
  | some d =>
    obtain ⟨hn, hget⟩ := List.getElem?_eq_some_iff.mp hd
    have hdrop : t.delays.drop n = d :: t.delays.drop (n + 1) := by
      rw [List.drop_eq_getElem_cons hn, hget]
    simp only [plan, if_pos, hdrop, calls, h, List.cons_append]

/-- An event that fails until the delays are used up walks along all of them. -/
theorem calls_of_fails {left : List Duration} (h : ((n + left.length : ℕ) : ℕ∞) < t.failures) :
    t.calls left n = (walk t.event left ++ [.tries t.event false], false) := by
  induction left generalizing n with
  | nil => simp [calls, walk, show t.fails n = true by simpa [fails] using h]
  | cons d left ih =>
    have hn : t.fails n = true := by
      refine decide_eq_true (lt_of_le_of_lt ?_ h)
      exact_mod_cast Nat.le_add_right _ _
    have hnext : t.calls left (n + 1) = (walk t.event left ++ [.tries t.event false], false) :=
      ih (by simpa [Nat.add_right_comm, ← Nat.add_assoc] using h)
    simp [calls, hn, hnext, walk]

/-- An event that goes through in time walks along the delays before that. -/
theorem calls_of_passes {left : List Duration} {j : ℕ} (hj : j ≤ left.length)
    (h : t.failures = (n + j : ℕ)) :
    t.calls left n = (walk t.event (left.take j) ++ [.tries t.event true], true) := by
  induction left generalizing n j with
  | nil =>
    obtain rfl : j = 0 := by simpa using hj
    simp [calls, walk, show t.fails n = false by simp [fails, h]]
  | cons d left ih =>
    cases j with
    | zero => simp [calls, walk, show t.fails n = false by simp [fails, h]]
    | succ j =>
      have hn : t.fails n = true := by
        refine decide_eq_true (h ▸ ?_)
        exact_mod_cast by omega
      have hnext : t.calls left (n + 1) =
          (walk t.event (left.take j) ++ [.tries t.event true], true) :=
        ih (by simpa using hj) (by rw [h, Nat.add_right_comm, Nat.add_assoc])
      simp [calls, hn, hnext, walk]

/-! ## The whole plan -/

variable (t)

/-- The events between the progress at the beginning and the event of the trial. -/
def before : List EventRecord := eventsWithin t.start (t.event.sequence - 1) t.events

/-- The events behind the event of the trial, up to the mark. -/
def behind : List EventRecord := t.ahead t.event.sequence

/-- All that is planned at the beginning. -/
def whole : List Attempt := t.plan (t.ahead t.start) 0

variable {t}

/-- What lies ahead at the beginning is the events before the event, the event, and those behind. -/
theorem ahead_start (h : t.event ∈ t.ahead t.start) :
    t.ahead t.start = t.before ++ t.event :: t.behind := by
  obtain ⟨hmem, hstart, hmark⟩ := mem_ahead.mp h
  have hlt : t.event.sequence - 1 < t.event.sequence := Int.sub_one_lt_of_le le_rfl
  have hsplit : t.ahead t.start = t.before ++ t.ahead (t.event.sequence - 1) :=
    ahead_eq_append (Int.le_sub_one_of_lt hstart) (le_trans hlt.le hmark)
  -- There is no position between the one before the event and that of the event.
  have hnext : t.ahead (t.event.sequence - 1) = t.event :: t.behind := by
    cases hcons : t.ahead (t.event.sequence - 1) with
    | nil => exact absurd (mem_ahead.mpr ⟨hmem, hlt, hmark⟩) (hcons ▸ List.not_mem_nil)
    | cons e es =>
      have hascending := t.ahead_pairwise (t.event.sequence - 1)
      obtain ⟨-, he, -⟩ := mem_ahead.mp (hcons ▸ List.mem_cons_self)
      have hle : t.event.sequence ≤ e.sequence := Int.le_of_sub_one_lt he
      have hevent : t.event ∈ e :: es := hcons ▸ mem_ahead.mpr ⟨hmem, hlt, hmark⟩
      rw [hcons] at hascending
      obtain rfl : t.event = e := by
        refine (List.mem_cons.mp hevent).resolve_right fun hrest => ?_
        exact absurd ((List.pairwise_cons.mp hascending).1 _ hrest) (not_lt.mpr hle)
      rw [behind, ahead_of_cons hcons]
  rw [hsplit, hnext]

/-- The event is not among those before it. -/
theorem not_mem_before (t : Trial) : t.event ∉ t.before := fun h => by
  have hle := (mem_eventsWithin.mp h).2.2
  exact absurd (Int.sub_one_lt_of_le (le_refl t.event.sequence)) (not_lt.mpr hle)

/-- The plan for an event that fails until the delays are used up. -/
theorem whole_of_fails (h : t.event ∈ t.ahead t.start)
    (hfails : (t.delays.length : ℕ∞) < t.failures) :
    t.whole = once t.before ++ (walk t.event t.delays ++ [.tries t.event false]) := by
  have hcalls : t.calls t.delays 0 = (walk t.event t.delays ++ [.tries t.event false], false) :=
    calls_of_fails (by simpa using hfails)
  rw [whole, ahead_start h, plan_append t.not_mem_before]
  simp [plan, hcalls]

/-- The plan for an event that goes through in time. -/
theorem whole_of_passes (h : t.event ∈ t.ahead t.start) {j : ℕ} (hj : t.failures = j)
    (hle : j ≤ t.delays.length) :
    t.whole = once t.before ++ (walk t.event (t.delays.take j) ++ once (t.event :: t.behind)) := by
  have hcalls : t.calls t.delays 0 =
      (walk t.event (t.delays.take j) ++ [.tries t.event true], true) :=
    calls_of_passes hle (by simpa using hj)
  rw [whole, ahead_start h, plan_append t.not_mem_before]
  simp [plan, hcalls, once]

/-! ## Failures so far -/

variable (t)

/-- How the failures counted by the shard, and the tries of the event, fit what lies ahead of a
position: the event is still pending with all of its tries failed and counted, and once it has been
tried it comes up next; or it has gone through before the delays were used up. -/
structure Tally (next : List EventRecord) (p : Position) (counted n : ℕ) : Prop where
  pending : t.event ∈ t.ahead p → counted = n ∧ n ≤ t.delays.length ∧ (n : ℕ∞) ≤ t.failures ∧
    (n = 0 ∨ next.head? = some t.event)
  passed : t.event ∉ t.ahead p → t.failures ≤ t.delays.length

variable {t} {next : List EventRecord} {counted : ℕ}

/-- Nothing is counted before the event has been tried. -/
theorem Tally.start (h : t.event ∈ t.ahead p) : t.Tally next p 0 0 :=
  ⟨fun _ => ⟨rfl, Nat.zero_le _, by simp, .inl rfl⟩, fun hnot => absurd h hnot⟩

/-- The failures fit what lies ahead of an event that goes through. -/
theorem Tally.tail (h : t.Tally (e :: next) p counted n) (hahead : t.ahead p = e :: es)
    (hpasses : e = t.event → t.fails n = false) (m : ℕ) (hm : e ≠ t.event → m = n) :
    t.Tally next e.sequence counted m := by
  have htail : t.ahead e.sequence = es := ahead_of_cons hahead
  by_cases he : e = t.event
  · have hmem : t.event ∈ t.ahead p := by rw [hahead, he]; exact List.mem_cons_self
    obtain ⟨-, hn, -, -⟩ := h.pending hmem
    refine ⟨fun hmem' => ?_, fun _ => ?_⟩
    · rw [he] at hmem'
      exact absurd (mem_ahead.mp hmem').2.1 (lt_irrefl _)
    · have hle : t.failures ≤ n := not_lt.mp (of_decide_eq_false (hpasses he))
      exact le_trans hle (by exact_mod_cast hn)
  · obtain rfl := hm he
    refine ⟨fun hmem => ?_, fun hnot => h.passed ?_⟩
    · obtain ⟨hcounted, hn, hle, hhead⟩ := h.pending (by
        rw [hahead]; exact List.mem_cons_of_mem _ (htail ▸ hmem))
      refine ⟨hcounted, hn, hle, .inl (hhead.resolve_right fun hsome => he ?_)⟩
      simpa using hsome
    · rw [hahead, List.mem_cons]
      rintro (heq | hmem)
      · exact he heq.symm
      · exact hnot (htail ▸ hmem)

/-- What is counted does not matter any more when a batch has come to its end: the event has not
been tried, or it has gone through. -/
theorem Tally.reset (h : t.Tally [] p counted n) (heq : t.ahead q = t.ahead p) :
    t.Tally next q 0 n := by
  refine ⟨fun hmem => ?_, fun hnot => h.passed (heq ▸ hnot)⟩
  obtain ⟨-, hn, hle, hhead⟩ := h.pending (heq ▸ hmem)
  obtain rfl : n = 0 := hhead.resolve_right (by simp)
  exact ⟨rfl, hn, hle, .inl rfl⟩

/-- What comes up next in a batch is what comes up next ahead of where it begins. -/
theorem Tally.fetched {limit : ℕ} (hlimit : 0 < limit) (h : t.Tally (t.ahead p) p counted n) :
    t.Tally ((t.ahead p).take limit) p counted n := by
  refine ⟨fun hmem => ?_, h.passed⟩
  obtain ⟨hcounted, hn, hle, hhead⟩ := h.pending hmem
  exact ⟨hcounted, hn, hle, hhead.imp id fun hsome => by
    rw [List.head?_take, if_neg hlimit.ne', hsome]⟩

end Trial

end Tidemark
