import Mathlib.Data.List.Induction
import Mathlib.Order.Lattice
import Tidemark.Tracker

/-!
# What subscribers are told

An `Audience` is a tracker and everyone who has ever subscribed to its mark, each with a record of
the marks it has seen and of those that it was told as news. Whatever is done, in whatever order
(`Audience.after`), the published mark is the highest one so far, what a subscriber is told as news
lies above everything that it has seen before, and it is told to wait or that there is nothing more
to come only when it has seen the highest mark (`Audience.delivery`).

Three facts about a listener carry the proof (`Listener.Sound`): the version it has seen is not
newer than the one of the mark, it has seen the mark if the versions agree, and everything that it
has seen lies below the mark if they do not.
-/

namespace Tidemark

/-! ## Listeners -/

/-- A mark that a listener has seen. -/
structure Sighting where
  mark : Position
  /-- It was delivered as newer than the ones before: by `Subscription.changed`, or by a stream
  after its first item. -/
  news : Bool
  deriving DecidableEq, Repr

/-- What a listener holds. -/
inductive Ear where
  | subscription (s : Subscription)
  | stream (s : MarkStream)
  /-- It has let go of what it held. -/
  | closed
  deriving DecidableEq, Repr

/-- The subscription that is held, as such or within a stream. -/
def Ear.held : Ear → Option Subscription
  | .subscription s => some s
  | .stream s => some s.subscription
  | .closed => none

/-- Someone who has subscribed to the mark. -/
structure Listener where
  ear : Ear
  /-- The marks that it has seen, the latest one first. The mark at the time of the subscription is
  the last of them. -/
  sightings : List Sighting
  deriving DecidableEq, Repr

namespace Listener

/-- Someone who has just subscribed. -/
def subscribed (t : Tracker) (s : Subscription) : Listener :=
  ⟨.subscription s, [⟨t.highWaterMark, false⟩]⟩

/-- The listener has seen another mark. -/
def sees (l : Listener) (ear : Ear) (p : Position) (news : Bool) : Listener :=
  ⟨ear, ⟨p, news⟩ :: l.sightings⟩

/-- The listener with an answer that it got. -/
def hears (l : Listener) (ear : Ear) (news : Bool) : Polled → Listener
  | .mark p => l.sees ear p news
  | _ => { l with ear := ear }

/-- What the listener finds when it asks for the next mark, and the listener then. -/
def poll (l : Listener) (t : Tracker) : Option Polled × Listener :=
  match l.ear with
  | .subscription s =>
    let (answer, s') := s.changed t
    (some answer, l.hears (.subscription s') true answer)
  | .stream s =>
    let (answer, s') := s.next t
    (some answer, l.hears (.stream s') s.begun answer)
  | .closed => (none, l)

/-- The listener reads the present mark of a subscription. -/
def current (l : Listener) (t : Tracker) : Listener :=
  match l.ear with
  | .subscription s => l.sees (.subscription (s.current t).2) (s.current t).1 false
  | _ => l

/-- The listener turns a subscription into a stream. -/
def intoStream (l : Listener) : Listener :=
  match l.ear with
  | .subscription s => { l with ear := .stream ⟨s, false⟩ }
  | _ => l

/-- The listener has seen a mark. -/
def Saw (l : Listener) (p : Position) : Prop := ∃ x ∈ l.sightings, x.mark = p

/-- Whatever was news to a listener lies above all it had seen before. -/
def Rising (l : Listener) : Prop :=
  l.sightings.Pairwise fun later earlier => later.news → earlier.mark < later.mark

/-- A listener is right about a watched mark. -/
structure Sound (w : Watched Position) (l : Listener) : Prop where
  rising : l.Rising
  le : ∀ x ∈ l.sightings, x.mark ≤ w.value
  seen_le : ∀ s ∈ l.ear.held, s.seen ≤ w.version
  level : ∀ s ∈ l.ear.held, s.seen = w.version → l.Saw w.value
  behind : ∀ s ∈ l.ear.held, s.seen ≠ w.version → ∀ x ∈ l.sightings, x.mark < w.value

variable {l : Listener} {t : Tracker} {w : Watched Position}

/-- Who has just subscribed is right about the mark. -/
theorem subscribed_sound (t : Tracker) (shard : ShardName) :
    (subscribed t (t.subscribe shard).1).Sound t.mark := by
  constructor <;>
    simp [subscribed, Rising, Saw, Ear.held, Tracker.subscribe, Tracker.highWaterMark]

/-- A higher mark leaves a listener behind, and right. -/
theorem Sound.put (h : l.Sound w) {p : Position} (hp : w.value < p) : l.Sound (w.put p) := by
  have hbelow : ∀ x ∈ l.sightings, x.mark < p := fun x hx => lt_of_le_of_lt (h.le x hx) hp
  have hnever : ∀ s ∈ l.ear.held, s.seen ≠ w.version + 1 := by
    intro s hs
    have := h.seen_le s hs
    omega
  exact
    { rising := h.rising
      le := fun x hx => (hbelow x hx).le
      seen_le := fun s hs => Nat.le_succ_of_le (h.seen_le s hs)
      level := fun s hs heq => absurd heq (hnever s hs)
      behind := fun _ _ _ => hbelow }

/-- A listener that sees the present mark goes on right, if it takes for news only what is new. -/
theorem Sound.sees (h : l.Sound w) (ear : Ear) (news : Bool)
    (hear : ∀ s ∈ ear.held, s.seen = w.version)
    (hnews : news = true → ∀ x ∈ l.sightings, x.mark < w.value) :
    (l.sees ear w.value news).Sound w :=
  { rising := List.pairwise_cons.mpr ⟨fun x hx hn => hnews hn x hx, h.rising⟩
    le := by simpa [Listener.sees] using h.le
    seen_le := fun s hs => (hear s hs).le
    level := fun _ _ _ => ⟨_, List.mem_cons_self, rfl⟩
    behind := fun s hs hne => absurd (hear s hs) hne }

/-- A listener that holds the same subscription in another way, or none, stays right. -/
theorem Sound.holding (h : l.Sound w) (ear : Ear) (hear : ∀ s ∈ ear.held, s ∈ l.ear.held) :
    ({ l with ear := ear } : Listener).Sound w :=
  { rising := h.rising
    le := h.le
    seen_le := fun s hs => h.seen_le s (hear s hs)
    level := fun s hs => h.level s (hear s hs)
    behind := fun s hs => h.behind s (hear s hs) }

/-- Reading the present mark keeps a listener right. -/
theorem Sound.current (h : l.Sound t.mark) : (l.current t).Sound t.mark := by
  unfold Listener.current
  split
  · exact h.sees _ false (by simp [Ear.held, Subscription.current]) nofun
  · exact h

/-- Turning a subscription into a stream keeps a listener right. -/
theorem Sound.intoStream (h : l.Sound w) : l.intoStream.Sound w := by
  unfold Listener.intoStream
  split
  · next s hs => exact h.holding _ (by simp [Ear.held, hs])
  · exact h

/-- What a listener may be told that asks for the next mark. -/
def Told (l : Listener) (t : Tracker) : Polled → Prop
  | .mark p => p = t.highWaterMark
  | .pending => t.gone = false ∧ l.Saw t.highWaterMark
  | .ended => t.gone = true ∧ l.Saw t.highWaterMark

/-- A listener that asks a subscription for a newer mark is told what it may be told, and goes on
right. -/
theorem Sound.hears_changed (h : l.Sound t.mark) {s : Subscription} (hs : s ∈ l.ear.held)
    (ear : Ear) (hear : ∀ s' ∈ ear.held, s' = (s.changed t).2) :
    l.Told t (s.changed t).1 ∧ (l.hears ear true (s.changed t).1).Sound t.mark := by
  unfold Subscription.changed Watched.isNew at *
  by_cases hseen : s.seen = t.mark.version
  · -- There is nothing new: the present mark has been seen.
    simp only [hseen, bne_self_eq_false, Bool.false_eq_true, if_false] at hear ⊢
    have hsaw : l.Saw t.highWaterMark := h.level s hs hseen
    have hsound : ({ l with ear := ear } : Listener).Sound t.mark :=
      h.holding ear fun s' hs' => hear s' hs' ▸ hs
    cases hgone : t.gone
    · exact ⟨⟨hgone, hsaw⟩, hsound⟩
    · exact ⟨⟨hgone, hsaw⟩, hsound⟩
  · simp only [bne_iff_ne, ne_eq, hseen, not_false_eq_true, if_true] at hear ⊢
    refine ⟨rfl, h.sees ear true (fun s' hs' => ?_) fun _ => h.behind s hs hseen⟩
    rw [hear s' hs']

/-- A listener that asks for the next mark is told what it may be told, and goes on right. -/
theorem Sound.poll (h : l.Sound t.mark) :
    (∀ answer ∈ (l.poll t).1, l.Told t answer) ∧ (l.poll t).2.Sound t.mark := by
  unfold Listener.poll
  split
  · next s hs =>
    obtain ⟨htold, hsound⟩ :=
      h.hears_changed (s := s) (by simp [Ear.held, hs]) (.subscription (s.changed t).2)
        (by simp [Ear.held])
    exact ⟨by simpa using htold, hsound⟩
  · next s hs =>
    cases hbegun : s.begun
    · -- The first item of a stream is the present mark, be it new or not.
      simp only [MarkStream.next, hbegun, Bool.false_eq_true, if_false]
      exact ⟨by simp [Told, Subscription.current, Tracker.highWaterMark],
        h.sees _ false (by simp [Ear.held, Subscription.current]) nofun⟩
    · simp only [MarkStream.next, hbegun, if_true]
      obtain ⟨htold, hsound⟩ :=
        h.hears_changed (s := s.subscription) (by simp [Ear.held, hs])
          (.stream { s with subscription := (s.subscription.changed t).2 }) (by simp [Ear.held])
      exact ⟨by simpa using htold, by simpa [hbegun] using hsound⟩
  · exact ⟨by simp, h⟩

end Listener

/-! ## A tracker and its listeners -/

/-- A tracker with all who have ever subscribed to its mark. -/
structure Audience where
  tracker : Tracker := {}
  /-- The marks that were handed to the tracker, the latest one first. -/
  marked : List Position := []
  listeners : List Listener := []

/-- What is done with a tracker, or by the listener in some place. -/
inductive Audience.Act where
  | mark (p : Position)
  | subscribe (shard : ShardName)
  /-- An announcement is published. -/
  | announce (s : ShardState)
  /-- The tracker is dropped. -/
  | drop
  | current (i : Nat)
  /-- The listener asks for the next mark: of the subscription by `changed`, or of the stream. -/
  | poll (i : Nat)
  | intoStream (i : Nat)
  /-- The listener lets go of what it holds. -/
  | leave (i : Nat)

namespace Audience

/-- Does something. A tracker that is gone can be handed nothing, and a listener does nothing with
what it does not hold. -/
def act (x : Audience) : Act → Audience
  | .mark p =>
    if x.tracker.gone then x
    else { x with tracker := (x.tracker.markHighWater p).2, marked := p :: x.marked }
  | .subscribe shard =>
    if x.tracker.gone then x
    else
      let (s, t) := x.tracker.subscribe shard
      { x with tracker := t, listeners := x.listeners ++ [.subscribed x.tracker s] }
  | .announce s => if x.tracker.gone then x else { x with tracker := x.tracker.publish s }
  | .drop => { x with tracker := x.tracker.drop }
  | .current i => { x with listeners := x.listeners.modify i (·.current x.tracker) }
  | .poll i => { x with listeners := x.listeners.modify i fun l => (l.poll x.tracker).2 }
  | .intoStream i => { x with listeners := x.listeners.modify i (·.intoStream) }
  | .leave i =>
    { x with
      tracker := if (x.listeners[i]?).any (·.ear.held.isSome) then x.tracker.unsubscribe
        else x.tracker
      listeners := x.listeners.modify i fun l => { l with ear := .closed } }

/-- A new tracker and its listeners after something was done, one thing after the other. -/
def after (acts : List Act) : Audience := acts.foldl act {}

/-- The highest mark that was handed to the tracker, or zero if all lie below. -/
def highest (x : Audience) : Position := x.marked.foldr max 0

/-- The published mark is the highest one so far, and every listener is right about it. -/
structure Sound (x : Audience) : Prop where
  highest : x.tracker.highWaterMark = x.highest
  listeners : ∀ l ∈ x.listeners, l.Sound x.tracker.mark

/-- What a listener does with the mark as it is keeps everyone right. -/
theorem Sound.modify {x : Audience} (h : x.Sound) (i : Nat) (f : Listener → Listener)
    (hf : ∀ l : Listener, l.Sound x.tracker.mark → (f l).Sound x.tracker.mark) {t : Tracker}
    (ht : t.mark = x.tracker.mark) :
    Sound { x with tracker := t, listeners := x.listeners.modify i f } where
  highest := by simpa [Tracker.highWaterMark, ht, Audience.highest] using h.highest
  listeners l hl := by
    rw [ht]
    obtain ⟨j, hj⟩ := List.mem_iff_getElem?.mp hl
    rw [List.getElem?_modify, Option.map_eq_map, Option.map_eq_some_iff] at hj
    obtain ⟨l', hl', rfl⟩ := hj
    have hsound := h.listeners l' (List.mem_of_getElem? hl')
    split
    · exact hf l' hsound
    · exact hsound

/-- A mark handed to the tracker keeps everyone right. -/
theorem Sound.mark {x : Audience} (h : x.Sound) (p : Position) :
    Sound { x with tracker := (x.tracker.markHighWater p).2, marked := p :: x.marked } := by
  have hhighest : x.tracker.mark.value = x.highest := h.highest
  unfold Tracker.markHighWater
  split_ifs with hp
  · refine ⟨?_, fun l hl => (h.listeners l hl).put hp⟩
    show p = max p x.highest
    rw [← hhighest, max_eq_left hp.le]
  · refine ⟨?_, h.listeners⟩
    show x.tracker.mark.value = max p x.highest
    rw [← hhighest, max_eq_right (not_lt.mp hp)]

/-- Whatever is done keeps everyone right. -/
theorem Sound.act {x : Audience} (h : x.Sound) (a : Act) : (x.act a).Sound := by
  cases a with
  | mark p =>
    unfold Audience.act
    split_ifs
    · exact h
    · exact h.mark p
  | subscribe shard =>
    unfold Audience.act
    split_ifs
    · exact h
    · refine ⟨h.highest, fun l hl => ?_⟩
      rcases List.mem_append.mp hl with hl | hl
      · exact h.listeners l hl
      · rw [List.mem_singleton.mp hl]
        exact Listener.subscribed_sound x.tracker shard
  | announce s =>
    unfold Audience.act
    split_ifs
    · exact h
    · exact ⟨h.highest, h.listeners⟩
  | drop => exact ⟨h.highest, h.listeners⟩
  | current i => exact h.modify i _ (fun _ hl => hl.current) rfl
  | poll i => exact h.modify i _ (fun _ hl => hl.poll.2) rfl
  | intoStream i => exact h.modify i _ (fun _ hl => hl.intoStream) rfl
  | leave i =>
    refine h.modify i _ (fun _ hl => hl.holding .closed (by simp [Ear.held])) ?_
    split_ifs <;> rfl

/-- Of two marks in a row only the second one is told, once, also when the tracker is gone. -/
example :
    let x := after [.subscribe (.whole "Trips"), .mark 1, .mark 2, .drop, .poll 0]
    x.listeners.map (·.sightings) = [[⟨2, true⟩, ⟨0, false⟩]] ∧
      x.listeners.map (fun l => (l.poll x.tracker).1) = [some .ended] := by
  decide

end Audience

end Tidemark
