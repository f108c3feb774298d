import Mathlib.Data.Prod.Lex
import Tidemark.Proofs.Shard.Steering
import Tidemark.Proofs.Shard.Trial

/-!
# What a consumer does about its events

In a trial, whatever stage a consumer is at determines what is left of the plan (`Phase`). A step
either carries out the first attempt that is left or brings the consumer closer to it
(`Phase.step`): the attempts that are left become fewer, or the progress on record comes closer to
the mark, or the consumer comes closer to the next one of these.
-/

namespace Tidemark

open LogView

variable {L π : Type}

/-- The first rule for a failure has the given chain. -/
def Policy.Chains (p : Policy) (e : Failure) (chain : List Continuation) : Prop :=
  (p.rules.find? (·.filter.accepts e)).map (·.chain) = some chain

instance (p : Policy) (e : Failure) (chain : List Continuation) : Decidable (p.Chains e chain) :=
  inferInstanceAs (Decidable (_ = _))

namespace Consumer

/-- What the next step of a consumer does about its events. -/
def attempt [Projection π] (c : Consumer) (p : π) (s : Surroundings L) (now : Moment) :
    Option Attempt :=
  match c.stage with
  | .applying batch _ => batch.events.head?.map fun e => .tries e (Projection.apply p e now).1.isOk
  | .reporting _ (.done (.ok (.retryLater d))) => if s.shutdown then none else some (.rests d)
  | _ => none

/-- If the next step of a consumer calls the log, the log answers. -/
def isServed [EventLog L] (c : Consumer) (s : Surroundings L) (now : Moment) : Bool :=
  let name := (s.handle c.identity).name
  match c.stage with
  | .loading => (s.call now (EventLog.lastPersistedMark name)).1.isOk
  | .fetching committed mark =>
    (s.call now (EventLog.fetchEvents committed mark (max s.batchSize 1))).1.isOk
  | .saving batch _ => (s.call now (EventLog.persistMark name batch.handled)).1.isOk
  | .closing batch => (s.call now (EventLog.persistMark name batch.target)).1.isOk
  | _ => true

end Consumer

/-- How many steps a consumer takes at most before it does something about its events or records
progress. -/
def ConsumerStage.toGo : ConsumerStage → ℕ
  | .opening => 9
  | .loading => 8
  | .failing _ _ => 7
  | .reporting _ _ => 6
  | .backingOff _ _ => 5
  | .fetching _ _ => 3
  | .applying _ _ | .saving _ _ => 2
  | .closing _ => 1
  | .pausing _ _ | .idle | .ended | .crashed => 0

namespace Trial

variable (t : Trial)

/-- What may come of a try of an event: the event of the trial fails at its first tries, with a
failure whose rule is to retry after each delay in turn, and all else goes through. -/
def expects (n : ℕ) (e : EventRecord) : Applied → Bool
  | .ok => ¬ (e = t.event ∧ t.fails n)
  | .failed cause => (e = t.event ∧ t.fails n) ∧
    t.policy.Chains cause.asApply (t.delays.map .retryLater)
  | .crashed => false

/-- If the next step hands an event to the projection, that does what the trial expects. -/
def governs [Projection π] (n : ℕ) (c : Consumer) (p : π) (now : Moment) : Bool :=
  match c.stage with
  | .applying batch _ => batch.events.head?.all fun e => t.expects n e (Projection.apply p e now).1
  | _ => true

/-! ## Surroundings -/

section

variable [LogView L]

/-- The surroundings are those of the trial, with so much progress on record and so many failures
counted. -/
structure Holds (s : Surroundings L) (r : Position) (counted : ℕ) : Prop where
  kept : Kept s.commons.log
  events : ∀ p, eventsWithin p t.mark.value s.events = t.ahead p
  mark : s.commons.tracker.mark = t.mark
  policy : s.supervisor.policy = t.policy
  batchSize : s.batchSize = t.batchSize
  shutdown : s.shutdown = false
  row : s.row t.shard = r
  handle : s.Reads t.shard fun h => h.control = t.control ∧ h.attempts = counted

variable {t} {s s' : Surroundings L} {r r' : Position} {counted counted' : ℕ}

namespace Holds

/-- What matters for events stays, and so do the settings. -/
theorem of_keeps (h : t.Holds s r counted) (hk : Surroundings.Keeps t.shard s s')
    (hmark : s'.commons.tracker.mark = s.commons.tracker.mark)
    (hpolicy : s'.supervisor.policy = s.supervisor.policy) (hsize : s'.batchSize = s.batchSize)
    (hshutdown : s'.shutdown = s.shutdown)
    (hhandle : s'.Reads t.shard fun h => h.control = t.control ∧ h.attempts = counted') :
    t.Holds s' r counted' where
  kept := hk.view.kept h.kept
  events p := by rw [← h.events p, Surroundings.events, hk.view.stored]; rfl
  mark := hmark.trans h.mark
  policy := hpolicy.trans h.policy
  batchSize := hsize.trans h.batchSize
  shutdown := hshutdown.trans h.shutdown
  row := hk.row.trans h.row
  handle := hhandle

/-- Changing the handle in a way that keeps its name and its instruction. -/
theorem modify (h : t.Holds s r counted) {f : ShardHandle → ShardHandle}
    (hf : ∀ h, (f h).name = h.name ∧ (f h).control = h.control)
    (hcounted : ∀ h : ShardHandle, h.attempts = counted → (f h).attempts = counted') :
    t.Holds (s.modify t.shard f) r counted' :=
  h.of_keeps (s.keeps_modify t.shard fun h _ => (hf h).1) rfl rfl rfl rfl
    (h.handle.modify fun old hold => ⟨(hf old).2.trans hold.1, hcounted old hold.2⟩)

/-- Taking a measurement. -/
theorem measure (h : t.Holds s r counted) (f : Metrics → Metrics) :
    t.Holds (s.measure f) r counted :=
  h.of_keeps (s.keeps_measure t.shard f) rfl rfl rfl rfl h.handle

/-- Making an announcement. -/
theorem announce (h : t.Holds s r counted) (action : ShardAction) :
    t.Holds (s.announce t.shard action) r counted :=
  h.of_keeps (s.keeps_announce t.shard t.shard action) rfl rfl rfl rfl h.handle

/-- Subscribing to the mark and setting the status. -/
theorem begun (h : t.Holds s r counted) : t.Holds (s.begun t.shard) r counted :=
  h.of_keeps (s.keeps_begun t.shard) rfl rfl rfl rfl (h.handle.modify fun _ hold => hold)

/-- A call of the log that changes nothing of what shards see. -/
theorem call {α : Type} {now : Moment} {f : LogCall L α} {outcome : Outcome α}
    (h : t.Holds s r counted) (hcall : s.call now f = (outcome, s'))
    (hf : ∀ {log log' now}, f log now = (outcome, log') → SameView log log') :
    t.Holds s' r counted := by
  have hkeeps := s.keeps_call t.shard hcall hf
  obtain ⟨log, -, rfl⟩ := Surroundings.call_eq hcall
  exact h.of_keeps hkeeps rfl rfl rfl rfl h.handle

end Holds

end

variable [EventLog L] [LawfulLog L] {t} {s s' : Surroundings L} {r r' : Position}
  {counted n : ℕ}

namespace Holds

/-- Recording progress. -/
theorem persist {now : Moment} {updated : Option Timestamp} (h : t.Holds s r counted)
    (hcall : s.call now (EventLog.persistMark (s.handle t.shard).name r') = (.ok updated, s')) :
    t.Holds s' r' counted := by
  have hrecords := Surroundings.records_call hcall
  obtain ⟨log, -, rfl⟩ := Surroundings.call_eq hcall
  refine ⟨hrecords.kept h.kept, fun p => ?_, h.mark, h.policy, h.batchSize, h.shutdown, ?_,
    h.handle⟩
  · rw [hrecords.events, h.events]
  · rw [Surroundings.row, hrecords.name, hrecords.recorded, Function.update_self]

end Holds

/-! ## Reports -/

/-- How the shard goes on after the event has failed at a try after so many others. -/
def answer (t : Trial) (n : ℕ) : Continuation := (t.delays[n]?).elim .stopShard .retryLater

/-- The rule for the event gives its delays in turn, and stops the shard after the last one. -/
theorem determine_eq {e : Failure} (h : t.policy.Chains e (t.delays.map .retryLater)) (n : ℕ) :
    t.policy.determine e (n + 1) = t.answer n := by
  obtain ⟨rule, hfind, hchain⟩ := Option.map_eq_some_iff.mp h
  have hend : Rule.afterEnd (t.delays.map .retryLater) = .stopShard := by
    unfold Rule.afterEnd
    rw [List.getLast?_map]
    cases t.delays.getLast? <;> rfl
  rw [Policy.determine, hfind]
  simp only [Rule.continuationFor, hchain, hend, answer, List.getElem?_map,
    Nat.max_eq_left (Nat.le_add_left 1 n), Nat.add_sub_cancel]
  cases t.delays[n]? <;> rfl

/-- A failure of the event is counted and resolved by its rule. -/
theorem Holds.report (h : t.Holds s r n) (hn : n < 0xFFFFFFFF) {e : Failure}
    (hrule : t.policy.Chains e (t.delays.map .retryLater)) :
    ∃ supervisor m, s.supervisor.report s.commons.metrics t.shard e =
        (.done (.ok (t.answer n)), supervisor, m) ∧
      t.Holds { s with supervisor := supervisor, commons := { s.commons with metrics := m } } r
        (n + 1) := by
  obtain ⟨old, hfind, hcontrol, hattempts⟩ := h.handle
  have hkeeps := s.keeps_report t.shard t.shard e
  have hnumber : min (old.attempts + 1) 0xFFFFFFFF = n + 1 := by omega
  have hcount : (old.attempts + 1) % 0x100000000 = n + 1 := by omega
  -- Neither a delay nor a stop resolves the failure, or concerns other shards.
  have hcommand : (t.answer n).command? = none := by
    unfold answer
    cases t.delays[n]? <;> rfl
  have hresolves : (t.answer n).resolves = false := by
    unfold answer
    cases t.delays[n]? <;> rfl
  have hreport : s.supervisor.report s.commons.metrics t.shard e =
      (.done (.ok (t.answer n)), s.supervisor.modify t.shard fun _ => old.nextAttempt.2,
        s.commons.metrics.recordContinuation t.shard (t.answer n).kind) := by
    simp only [Supervisor.report, Supervisor.resolve?, hfind, Option.map_some,
      ShardHandle.nextAttempt, hnumber, h.policy, determine_eq hrule, hcommand, hresolves,
      Bool.false_eq_true, if_false]
  rw [hreport] at hkeeps
  refine ⟨_, _, hreport, h.of_keeps hkeeps rfl rfl rfl rfl ?_⟩
  exact ⟨old.nextAttempt.2, by simp [Supervisor.modify, Registry.find?_modify, hfind], hcontrol,
    hcount⟩

/-! ## Phases -/

/-- If the next step records the progress after a batch, how far the mark lies above that can be
represented. -/
def Measures (t : Trial) (c : Consumer) : Prop :=
  ∀ b, c.stage = .closing b → Position.Fits (t.mark.value - b.target)

/-- The shard is between batches, with a position on record from which it will go on. -/
structure Between (t : Trial) (s : Surroundings L) (r : Position) (counted n : ℕ) : Prop where
  holds : t.Holds s r counted
  placed : t.Placed r
  tally : t.Tally (t.ahead r) r counted n
  rested : t.mark.value ≤ r → counted = 0

/-- The shard is in the middle of a batch. -/
structure Within (t : Trial) (s : Surroundings L) (b : Batch) (counted n : ℕ) : Prop where
  holds : t.Holds s b.committed counted
  split : t.ahead b.handled = b.events ++ t.ahead b.target
  tally : t.Tally b.events b.handled counted n
  committed : t.Placed b.committed
  handled : t.Placed b.handled
  target : t.Placed b.target
  begun : b.committed ≤ b.handled
  grows : b.committed < b.target
  mark : b.mark = t.mark.value

/-- The event has failed at a try after so many others, and comes up next. -/
structure Failed (t : Trial) (p : Position) (n : ℕ) : Prop where
  placed : t.Placed p
  next : ∃ es, t.ahead p = t.event :: es
  tries : n ≤ t.delays.length
  fails : t.fails n = true

/-- Where a consumer stands after so many tries of the event, and which attempts are left then. -/
inductive Phase (t : Trial) : Consumer → Surroundings L → ℕ → List Attempt → Prop where
  | opens {seenMark seenControl : ℕ} {s : Surroundings L} {r : Position} {counted n : ℕ}
    (h : t.Between s r counted n) :
    Phase t ⟨t.shard, .opening, seenMark, seenControl, none⟩ s n (t.plan (t.ahead r) n)
  | loads {seenMark : ℕ} {s : Surroundings L} {r : Position} {counted n : ℕ}
    (h : t.Between s r counted n) :
    Phase t ⟨t.shard, .loading, seenMark, t.control.version, none⟩ s n (t.plan (t.ahead r) n)
  | fetches {seenMark seenControl : ℕ} {s : Surroundings L} {r : Position} {counted n : ℕ}
    (h : t.Between s r counted n) (hmark : r < t.mark.value) :
    Phase t ⟨t.shard, .fetching r t.mark.value, seenMark, seenControl, some r⟩ s n
      (t.plan (t.ahead r) n)
  | applies {seenMark seenControl : ℕ} {position : Option Position} {s : Surroundings L} {b : Batch}
    {due : Moment} {counted n : ℕ} (h : t.Within s b counted n) (hne : b.events ≠ []) :
    Phase t ⟨t.shard, .applying b due, seenMark, seenControl, position⟩ s n
      (t.plan (t.ahead b.handled) n)
  | closes {seenMark seenControl : ℕ} {position : Option Position} {s : Surroundings L} {b : Batch}
    {counted n : ℕ} (h : t.Within s b counted n) (hes : b.events = []) :
    Phase t ⟨t.shard, .closing b, seenMark, seenControl, position⟩ s n
      (t.plan (t.ahead b.handled) n)
  | saves {seenMark seenControl : ℕ} {position : Option Position} {s : Surroundings L} {b : Batch}
    {cause : Failure} {n : ℕ} (h : t.Holds s b.committed n) (hf : t.Failed b.handled n)
    (hrule : t.policy.Chains cause (t.delays.map .retryLater)) (hlt : b.committed < b.handled) :
    Phase t ⟨t.shard, .saving b cause, seenMark, seenControl, position⟩ s (n + 1)
      (t.onward (t.ahead b.handled) n)
  | fails {seenMark seenControl : ℕ} {position : Option Position} {s : Surroundings L} {b : Batch}
    {saved : Position} {cause : Failure} {n : ℕ} (h : t.Holds s saved n) (hf : t.Failed saved n)
    (hrule : t.policy.Chains cause (t.delays.map .retryLater)) :
    Phase t ⟨t.shard, .failing (.applying b saved) cause, seenMark, seenControl, position⟩ s (n + 1)
      (t.onward (t.ahead saved) n)
  | resolves {seenMark seenControl : ℕ} {position : Option Position} {s : Surroundings L}
    {b : Batch} {saved : Position} {n : ℕ} (h : t.Holds s saved (n + 1)) (hf : t.Failed saved n) :
    Phase t ⟨t.shard, .reporting (.applying b saved) (.done (.ok (t.answer n))), seenMark,
      seenControl, position⟩ s (n + 1) (t.onward (t.ahead saved) n)
  | waits {seenMark seenControl : ℕ} {position : Option Position} {s : Surroundings L} {b : Batch}
    {saved : Position} {due : Moment} {n : ℕ} (h : t.Holds s saved (n + 1)) (hf : t.Failed saved n)
    (hn : n < t.delays.length) :
    Phase t ⟨t.shard, .backingOff (.applying b saved) due, seenMark, seenControl, position⟩ s
      (n + 1) (t.plan (t.ahead saved) (n + 1))
  /-- The mark has been reached. -/
  | rests {s : Surroundings L} {n : ℕ} (h : t.Holds s t.mark.value 0)
    (hpasses : t.failures ≤ t.delays.length) :
    Phase t ⟨t.shard, .idle, t.mark.version, t.control.version, some t.mark.value⟩ s n []
  /-- The delays have been used up. -/
  | ends {seenMark seenControl : ℕ} {position : Option Position} {s : Surroundings L} {n m : ℕ}
    (hstatus : s.Reads t.shard fun h => h.status = .stopped)
    (hf : t.Failed (s.row t.shard) m) (hm : t.delays.length ≤ m) :
    Phase t ⟨t.shard, .ended, seenMark, seenControl, position⟩ s n []

/-- In a trial with bounds, how far the mark lies above the target of every batch can be
represented. -/
theorem Phase.measures {c : Consumer} {left : List Attempt} (hb : t.Bounded)
    (h : t.Phase c s n left) : t.Measures c := by
  intro b hstage
  cases h with
  | closes h hes =>
    cases hstage
    exact h.target.fits hb.lag
  | _ => cases hstage

/-! ## Steps -/

/-- How far a consumer is from the end of the plan: what counts first is the attempts that are left,
then how far the progress on record is from the mark, and then the stage. -/
def rank (t : Trial) (r : Position) (toGo : ℕ) (left : List Attempt) : ℕ ×ₗ ℕ ×ₗ ℕ :=
  toLex (left.length, toLex ((t.mark.value - r).toNat, toGo))

/-- A step that begins with so much progress on record, so far from the next attempt, carries out
the first attempt that is left, if it makes one, and lowers the rank. -/
def Advances (t : Trial) (r : Position) (toGo n : ℕ) (left : List Attempt)
    (attempt : Option Attempt) (out : Consumer.Stepped L) : Prop :=
  ∃ rest, left = attempt.toList ++ rest ∧
    t.Phase out.1 out.2 (n + attempt.toList.countP (·.isTryOf t.event)) rest ∧
      t.rank (out.2.row t.shard) out.1.stage.toGo rest < t.rank r toGo left

section

variable {toGo : ℕ} {left : List Attempt} {out : Consumer.Stepped L}

/-- A step that makes an attempt. -/
theorem Advances.of_attempt {a : Attempt}
    (h : t.Phase out.1 out.2 (n + [a].countP (·.isTryOf t.event)) left) :
    t.Advances r toGo n (a :: left) (some a) out :=
  ⟨left, rfl, h, Prod.Lex.toLex_lt_toLex.mpr (.inl (Nat.lt_succ_self _))⟩

/-- A step that records progress. -/
theorem Advances.of_row (h : t.Phase out.1 out.2 n left) (hrow : r < out.2.row t.shard)
    (hmark : out.2.row t.shard ≤ t.mark.value) : t.Advances r toGo n left none out := by
  refine ⟨left, rfl, h, Prod.Lex.toLex_lt_toLex.mpr (.inr ⟨rfl, ?_⟩)⟩
  refine Prod.Lex.toLex_lt_toLex.mpr (.inl ?_)
  exact (Int.toNat_lt_toNat (sub_pos.mpr (lt_of_lt_of_le hrow hmark))).mpr
    (sub_lt_sub_left hrow _)

/-- A step that comes closer to an attempt, or to recording progress. -/
theorem Advances.of_stage (h : t.Phase out.1 out.2 n left) (hrow : out.2.row t.shard = r)
    (hstage : out.1.stage.toGo < toGo) : t.Advances r toGo n left none out := by
  refine ⟨left, rfl, h, Prod.Lex.toLex_lt_toLex.mpr (.inr ⟨rfl, ?_⟩)⟩
  exact Prod.Lex.toLex_lt_toLex.mpr (.inr ⟨by rw [hrow], hstage⟩)

end

/-- The event that has failed lies ahead. -/
theorem Failed.lt_mark {p : Position} (h : t.Failed p n) : p < t.mark.value := by
  obtain ⟨es, hnext⟩ := h.next
  obtain ⟨-, hp, hmark⟩ := mem_ahead.mp (hnext ▸ List.mem_cons_self)
  exact lt_of_lt_of_le hp hmark

/-- A shard goes on from the position before the event that has failed. -/
theorem Failed.between {p : Position} (h : t.Failed p n) (hs : t.Holds s p (n + 1))
    (hn : n < t.delays.length) : t.Between s p (n + 1) (n + 1) := by
  obtain ⟨es, hnext⟩ := h.next
  have hmem : t.event ∈ t.ahead p := hnext ▸ List.mem_cons_self
  refine ⟨hs, h.placed, ⟨fun _ => ⟨rfl, hn, ?_, .inr (by rw [hnext]; rfl)⟩,
    fun hnot => absurd hmem hnot⟩, fun hmark => absurd h.lt_mark (not_lt.mpr hmark)⟩
  exact Order.add_one_le_of_lt (of_decide_eq_true h.fails)

section

variable {c : Consumer} (hc : c.identity = t.shard)
include hc

/-- A consumer that weighs its progress fetches, or has reached the mark. -/
theorem Between.weigh (h : t.Between s r counted n) (hposition : c.position = some r)
    (hcontrol : c.seenControl = t.control.version) :
    t.Phase (c.weigh s r).1 (c.weigh s r).2 n (t.plan (t.ahead r) n) ∧
      (c.weigh s r).1.stage.toGo ≤ 3 := by
  obtain ⟨identity, stage, seenMark, seenControl, position⟩ := c
  subst hc hposition hcontrol
  simp only [Consumer.weigh, h.holds.mark, Consumer.at_]
  split_ifs with hmark
  · -- Only the mark itself lies at or above the mark.
    obtain rfl : r = t.mark.value := le_antisymm h.placed.le_mark hmark
    have hpasses := h.tally.passed (by rw [ahead_mark]; exact List.not_mem_nil)
    have hplan : t.plan (t.ahead t.mark.value) n = [] := by rw [ahead_mark]; rfl
    obtain rfl := h.rested le_rfl
    rw [hplan]
    exact ⟨.rests h.holds hpasses, Nat.zero_le _⟩
  · exact ⟨.fetches h (not_le.mp hmark), le_rfl⟩

/-- A consumer goes into the next round. -/
theorem Between.turn (h : t.Between s r counted n) (hposition : c.position = some r) :
    t.Phase (c.turn s).1 (c.turn s).2 n (t.plan (t.ahead r) n) ∧ (c.turn s).2 = s ∧
      (c.turn s).1.stage.toGo ≤ 3 := by
  have hcontrol := h.holds.handle.handle.1
  rw [← hc] at hcontrol
  obtain ⟨hphase, htoGo⟩ := h.weigh (c := { c with seenControl := t.control.version }) hc hposition
    rfl
  simp only [Consumer.turn, h.holds.shutdown, Bool.false_eq_true, if_false, hcontrol, t.running,
    hposition]
  rw [hposition] at hphase htoGo
  exact ⟨hphase, rfl, htoGo⟩

/-- A consumer that does not know its progress goes to load it. -/
theorem Between.open (h : t.Between s r counted n) (hposition : c.position = none) :
    t.Phase (c.turn s).1 (c.turn s).2 n (t.plan (t.ahead r) n) ∧ (c.turn s).2 = s ∧
      (c.turn s).1.stage.toGo = 8 := by
  obtain ⟨identity, stage, seenMark, seenControl, position⟩ := c
  subst hc hposition
  have hcontrol := h.holds.handle.handle.1
  simp only [Consumer.turn, h.holds.shutdown, Bool.false_eq_true, if_false, hcontrol, t.running]
  exact ⟨.loads h, trivial, rfl⟩

variable [Projection π] (p : π) (now : Moment)

/-- A consumer turns to the events of a batch, or to its end. -/
theorem Within.advance {b : Batch} (h : t.Within s b counted n) :
    t.Phase (c.advance p b now) s n (t.plan (t.ahead b.handled) n) ∧
      (c.advance p b now).stage.toGo ≤ 2 := by
  obtain ⟨identity, stage, seenMark, seenControl, position⟩ := c
  subst hc
  unfold Consumer.advance
  split
  · rename_i hes
    exact ⟨.closes h hes, Nat.le_succ 1⟩
  · rename_i hes
    exact ⟨.applies h (by simp [hes]), le_rfl⟩

end

section

variable [Projection π] (p : π) (now : Moment) {seenMark seenControl : ℕ}
  {position : Option Position}

/-- A consumer tries the first event of a batch. -/
theorem Within.applied {b : Batch} {due : Moment} {e : EventRecord} {es : List EventRecord}
    (h : t.Within s b counted n) (hes : b.events = e :: es) :
    let c : Consumer := ⟨t.shard, .applying b due, seenMark, seenControl, position⟩
    t.governs n c p now →
      t.Advances b.committed 2 n (t.plan (t.ahead b.handled) n)
        (some (.tries e (Projection.apply p e now).1.isOk))
        (c.applied (Projection.apply p e now).2 s now b e es (Projection.apply p e now).1) := by
  intro c hgoverns
  have hahead : t.ahead b.handled = e :: (es ++ t.ahead b.target) := by rw [h.split, hes]; rfl
  have hexpects : t.expects n e (Projection.apply p e now).1 := by
    simpa [governs, c, hes] using hgoverns
  cases hresult : (Projection.apply p e now).1 with
  | failed cause =>
    -- The event of the trial fails.
    rw [hresult] at hexpects
    obtain ⟨⟨rfl, hfails⟩, hrule⟩ := of_decide_eq_true hexpects
    have hmem : t.event ∈ t.ahead b.handled := hahead ▸ List.mem_cons_self
    obtain ⟨rfl, htries, -, -⟩ := h.tally.pending hmem
    have hf : t.Failed b.handled counted := ⟨h.handled, ⟨_, hahead⟩, htries, hfails⟩
    have hcount : [Attempt.tries t.event false].countP (·.isTryOf t.event) = 1 := by
      simp [Attempt.isTryOf]
    rw [hahead, plan_of_fails hfails, ← hahead]
    refine .of_attempt ?_
    rw [show _ = 1 from hcount]
    simp only [Consumer.applied]
    split_ifs with hle
    · have heq : b.handled = b.committed := le_antisymm hle h.begun
      rw [heq] at hf ⊢
      exact .fails h.holds hf hrule
    · exact .saves h.holds hf hrule (not_le.mp hle)
  | ok =>
    rw [hresult] at hexpects
    have hpasses : e = t.event → t.fails n = false := fun he =>
      Bool.eq_false_iff.mpr fun hfails => of_decide_eq_true hexpects ⟨he, hfails⟩
    let m := n + [Attempt.tries e true].countP (·.isTryOf t.event)
    have hm : e ≠ t.event → m = n := fun he => by simp [m, Attempt.isTryOf, he]
    have htail : t.ahead e.sequence = es ++ t.ahead b.target := ahead_of_cons hahead
    have hascending := t.ahead_pairwise b.handled
    have htally : t.Tally (e :: es) b.handled counted n := hes ▸ h.tally
    obtain ⟨-, hlt, -⟩ := mem_ahead.mp (hahead ▸ List.mem_cons_self)
    rw [hahead] at hascending
    rw [hahead, plan_of_passes hascending hpasses m hm, ← htail]
    refine .of_attempt ?_
    have hnext : t.Within s { b with events := es, handled := e.sequence, applied := b.applied + 1 }
        counted m :=
      ⟨h.holds, htail, htally.tail hahead hpasses m hm, h.committed, h.handled.of_cons hahead,
        h.target, le_trans h.begun hlt.le, h.grows, h.mark⟩
    exact (hnext.advance (c := c) rfl _ now).1
  | crashed =>
    rw [hresult] at hexpects
    cases hexpects

end

section

variable {c : Consumer} (hc : c.identity = t.shard) {now : Moment}
include hc

/-- A consumer that has fetched turns to its batch. -/
theorem Between.fetched [Projection π] (p : π) (h : t.Between s r counted n)
    (hmark : r < t.mark.value) {es : List EventRecord}
    (hes : es = (eventsWithin r t.mark.value s.events).take (max s.batchSize 1))
    (hs : t.Holds s' r counted) :
    let b : Batch := { committed := r, mark := t.mark.value, begun := now, events := es,
                       target := Consumer.target es (max s.batchSize 1) t.mark.value, handled := r }
    t.Advances r 3 n (t.plan (t.ahead r) n) none (c.advance p b now, s') := by
  intro b
  have hlimit : 0 < max s.batchSize 1 := lt_max_of_lt_right Nat.one_pos
  rw [h.holds.events r] at hes
  obtain ⟨hsplit, hgrows, htarget⟩ := ahead_of_fetched hlimit h.placed hmark hes
  have htally : t.Tally es r counted n := hes ▸ h.tally.fetched hlimit
  have hwithin : t.Within s' b counted n :=
    ⟨hs, hsplit, htally, h.placed, h.placed, htarget, le_rfl, hgrows, rfl⟩
  obtain ⟨hphase, htoGo⟩ := hwithin.advance hc p now
  exact .of_stage hphase hs.row (Nat.lt_succ_of_le htoGo)

/-- A consumer has recorded the progress after a batch: nothing is counted any more, and it goes
into the next round, unless the distance to the mark cannot be represented. -/
theorem Within.commit_eq {b : Batch} (h : t.Within s b counted n) (now : Moment)
    (hs : t.Holds s' b.target counted) :
    ∃ reset, t.Holds reset b.target 0 ∧ c.commit s' now b b.target =
      if Position.Fits (t.mark.value - b.target) then
        { c with position := some b.target }.turn (reset.announce t.shard .updated)
      else c.crash reset := by
  obtain ⟨identity, stage, seenMark, seenControl, position⟩ := c
  subst hc
  obtain ⟨f, hf⟩ := Consumer.commit_eq ⟨t.shard, stage, seenMark, seenControl, position⟩ s' now b
    b.target
  rw [h.mark] at hf
  exact ⟨_, (hs.modify (f := (·.resetAttempts)) (fun _ => ⟨rfl, rfl⟩) fun _ _ => rfl).measure f, hf⟩

/-- A consumer has recorded the progress after a batch and goes into the next round. -/
theorem Within.commit {b : Batch} (hfits : Position.Fits (t.mark.value - b.target))
    (h : t.Within s b counted n) (hes : b.events = []) (hs : t.Holds s' b.target counted)
    {toGo : ℕ} :
    t.Advances b.committed toGo n (t.plan (t.ahead b.handled) n) none
      (c.commit s' now b b.target) := by
  have hahead : t.ahead b.target = t.ahead b.handled := by rw [h.split, hes]; rfl
  obtain ⟨reset, hreset, hcommit⟩ := h.commit_eq hc now hs
  have hsettled := hreset.announce .updated
  have hbetween : t.Between (reset.announce t.shard .updated) b.target 0 n :=
    ⟨hsettled, h.target, (hes ▸ h.tally).reset hahead, fun _ => rfl⟩
  obtain ⟨hphase, hs', -⟩ := hbetween.turn (c := { c with position := some b.target }) hc rfl
  rw [hcommit, if_pos hfits, ← hahead]
  refine .of_row hphase ?_ ?_
  · rw [hs', hsettled.row]
    exact h.grows
  · rw [hs', hsettled.row]
    exact h.target.le_mark

end

/-- A shard between batches stays so where it has the same progress and has counted as much. -/
theorem Between.of_holds (h : t.Between s r counted n) (hs : t.Holds s' r counted) :
    t.Between s' r counted n := ⟨hs, h.placed, h.tally, h.rested⟩

section

variable [Projection π] (p : π) (now : Moment) {seenMark seenControl : ℕ}
  {position : Option Position}

/-- A consumer begins. -/
theorem Between.step_opening (h : t.Between s r counted n) :
    let c : Consumer := ⟨t.shard, .opening, seenMark, seenControl, none⟩
    t.Advances r 9 n (t.plan (t.ahead r) n) none (c.stepAside p s now) := by
  intro c
  rw [c.stepAside_opening rfl]
  obtain ⟨hphase, hs, htoGo⟩ := (h.of_holds h.holds.begun).open (c := c.begun s) rfl rfl
  exact .of_stage hphase ((congrArg (·.row t.shard) hs).trans h.holds.begun.row)
    (htoGo.trans_lt (Nat.lt_succ_self 8))

/-- A consumer loads its progress. -/
theorem Between.step_loading (h : t.Between s r counted n) :
    let c : Consumer := ⟨t.shard, .loading, seenMark, t.control.version, none⟩
    c.isServed s now → t.Advances r 8 n (t.plan (t.ahead r) n) none (c.stepAside p s now) := by
  intro c hserved
  obtain ⟨⟨saved, updated⟩, s₁, hcall⟩ := Surroundings.call_of_isOk hserved
  have hs₁ := h.holds.call hcall LawfulLog.frame_load
  -- What is loaded is the progress on record.
  obtain rfl : saved = r := by
    obtain ⟨log, hlog, -⟩ := Surroundings.call_eq hcall
    exact (LawfulLog.load_eq hlog).trans h.holds.row
  let s₂ := (s₁.modify t.shard ({ · with position := saved })).announce t.shard .started
  have hs₂ : t.Holds s₂ saved counted :=
    (hs₁.modify (f := ({ · with position := saved })) (fun _ => ⟨rfl, rfl⟩) fun _ hold =>
      hold).announce _
  obtain ⟨hphase, htoGo⟩ := (h.of_holds hs₂).weigh (c := { c with position := some saved }) rfl rfl
    rfl
  have hstep : c.stepAside p s now = { c with position := some saved }.weigh s₂ saved := by
    simp only [Consumer.stepAside, show s.call now _ = _ from hcall, Consumer.proceed, c]
    rfl
  rw [hstep]
  exact .of_stage hphase hs₂.row (htoGo.trans_lt (by omega))

/-- A consumer fetches. -/
theorem Between.step_fetching (h : t.Between s r counted n) (hmark : r < t.mark.value) :
    let c : Consumer := ⟨t.shard, .fetching r t.mark.value, seenMark, seenControl, some r⟩
    c.isServed s now → t.Advances r 3 n (t.plan (t.ahead r) n) none (c.stepAside p s now) := by
  intro c hserved
  obtain ⟨es, s₁, hcall⟩ := Surroundings.call_of_isOk hserved
  have hs₁ := h.holds.call hcall LawfulLog.frame_fetch
  have hes : es = (eventsWithin r t.mark.value s.events).take (max s.batchSize 1) := by
    obtain ⟨log, hlog, -⟩ := Surroundings.call_eq hcall
    exact LawfulLog.fetch_eq h.holds.kept hlog
  simp only [Consumer.stepAside, c, hcall, Consumer.proceed]
  exact h.fetched (c := c) rfl p hmark hes hs₁

/-- A consumer records the progress after a batch. -/
theorem Within.closing_eq {b : Batch} (h : t.Within s b counted n) :
    let c : Consumer := ⟨t.shard, .closing b, seenMark, seenControl, position⟩
    c.isServed s now → ∃ s', t.Holds s' b.target counted ∧
      c.stepAside p s now = c.commit s' now b b.target := by
  intro c hserved
  obtain ⟨updated, s₁, hcall⟩ := Surroundings.call_of_isOk hserved
  refine ⟨_, (h.holds.persist hcall).modify (f := ({ · with position := b.target }))
    (fun _ => ⟨rfl, rfl⟩) fun _ hold => hold, ?_⟩
  simp only [Consumer.stepAside, c, if_neg (not_le.mpr h.grows), hcall, Consumer.proceed]

/-- A consumer records the progress after a batch and goes into the next round. -/
theorem Within.step_closing {b : Batch} (hfits : Position.Fits (t.mark.value - b.target))
    (h : t.Within s b counted n) (hes : b.events = []) :
    let c : Consumer := ⟨t.shard, .closing b, seenMark, seenControl, position⟩
    c.isServed s now →
      t.Advances b.committed 1 n (t.plan (t.ahead b.handled) n) none (c.stepAside p s now) := by
  intro c hserved
  obtain ⟨s', hs', hstep⟩ := h.closing_eq p now hserved
  rw [hstep]
  exact h.commit (c := c) rfl hfits hes hs'

/-- A consumer records the progress before the event that has failed. -/
theorem Failed.step_saving {b : Batch} {cause : Failure} (h : t.Failed b.handled n)
    (hs : t.Holds s b.committed n) (hrule : t.policy.Chains cause (t.delays.map .retryLater))
    (hlt : b.committed < b.handled) :
    let c : Consumer := ⟨t.shard, .saving b cause, seenMark, seenControl, position⟩
    c.isServed s now →
      t.Advances b.committed 2 (n + 1) (t.onward (t.ahead b.handled) n) none
        (c.stepAside p s now) := by
  intro c hserved
  obtain ⟨updated, s₁, hcall⟩ := Surroundings.call_of_isOk hserved
  have hs₁ : t.Holds (s₁.modify t.shard ({ · with position := b.handled })) b.handled n :=
    (hs.persist hcall).modify (fun _ => ⟨rfl, rfl⟩) fun _ hold => hold
  simp only [Consumer.stepAside, c, hcall, Consumer.proceed]
  refine .of_row (.fails hs₁ h hrule) ?_ ?_
  · exact lt_of_lt_of_eq hlt hs₁.row.symm
  · exact hs₁.row.trans_le h.placed.le_mark

/-- A consumer reports the failure of the event. -/
theorem Failed.step_failing {b : Batch} {saved : Position} {cause : Failure}
    (htries : t.delays.length < 0xFFFFFFFF) (h : t.Failed saved n) (hs : t.Holds s saved n)
    (hrule : t.policy.Chains cause (t.delays.map .retryLater)) :
    let c : Consumer := ⟨t.shard, .failing (.applying b saved) cause, seenMark, seenControl,
      position⟩
    t.Advances saved 7 (n + 1) (t.onward (t.ahead saved) n) none (c.stepAside p s now) := by
  intro c
  obtain ⟨supervisor, m, hreport, hs'⟩ := hs.report (lt_of_le_of_lt h.tries htries) hrule
  simp only [Consumer.stepAside, c, hreport]
  exact .of_stage (.resolves hs' h) hs'.row (Nat.lt_succ_self 6)

/-- A consumer acts on the answer to the failure of the event. -/
theorem Failed.step_reporting {b : Batch} {saved : Position} (h : t.Failed saved n)
    (hs : t.Holds s saved (n + 1)) :
    let c : Consumer := ⟨t.shard, .reporting (.applying b saved) (.done (.ok (t.answer n))),
      seenMark, seenControl, position⟩
    t.Advances saved 6 (n + 1) (t.onward (t.ahead saved) n) (c.attempt p s now)
      (c.stepAside p s now) := by
  intro c
  cases hd : t.delays[n]? with
  | some d =>
    have hanswer : t.answer n = .retryLater d := by simp [answer, hd]
    have hn : n < t.delays.length := (List.getElem?_eq_some_iff.mp hd).1
    simp only [Consumer.stepAside, Consumer.attempt, Consumer.act, c, hanswer, hs.shutdown, onward,
      hd, Bool.false_eq_true, if_false]
    exact .of_attempt (.waits hs h hn)
  | none =>
    have hanswer : t.answer n = .stopShard := by simp [answer, hd]
    have hlength : t.delays.length ≤ n := List.getElem?_eq_none_iff.mp hd
    -- The instruction to stop is given, and the consumer ends.
    let told := s.modify t.shard (·.stop)
    let stopped := told.setStatus t.shard .stopped
    let left := (stopped.announce t.shard .stopped).leave
    have hkeeps : Surroundings.Keeps t.shard s left :=
      (s.keeps_modify t.shard (f := (·.stop)) fun _ _ => rfl).trans ((told.keeps_setStatus t.shard
        t.shard .stopped).trans ((stopped.keeps_announce t.shard t.shard .stopped).trans
          (Surroundings.keeps_leave t.shard _)))
    have hrow : left.row t.shard = saved := hkeeps.row.trans hs.row
    have htold : told.Reads t.shard fun _ => True := hs.handle.modify fun _ _ => trivial
    have hstatus : left.Reads t.shard fun h => h.status = .stopped :=
      htold.modify (f := ({ · with status := .stopped })) fun _ _ => rfl
    have hattempt : c.attempt p s now = none := by simp only [Consumer.attempt, c, hanswer]
    have hstep : c.stepAside p s now =
        (⟨t.shard, .ended, seenMark, seenControl, some saved⟩, left) := by
      simp only [Consumer.stepAside, c, hanswer]
      rfl
    rw [hattempt, hstep, onward, hd]
    exact .of_stage (.ends hstatus (hrow.symm ▸ h) hlength) hrow (Nat.succ_pos 5)

/-- A consumer has waited and goes on. -/
theorem Failed.step_backingOff {b : Batch} {saved : Position} {due : Moment} (h : t.Failed saved n)
    (hs : t.Holds s saved (n + 1)) (hn : n < t.delays.length) :
    let c : Consumer := ⟨t.shard, .backingOff (.applying b saved) due, seenMark, seenControl,
      position⟩
    t.Advances saved 5 (n + 1) (t.plan (t.ahead saved) (n + 1)) none (c.stepAside p s now) := by
  intro c
  obtain ⟨hphase, hs', htoGo⟩ := (h.between hs hn).turn (c := { c with position := some saved }) rfl
    rfl
  have hstep : c.stepAside p s now = { c with position := some saved }.turn s := by
    simp only [Consumer.stepAside, c, hs.shutdown]
    rfl
  rw [hstep]
  exact .of_stage hphase (by rw [hs', hs.row]) (htoGo.trans_lt (by omega))

/-- Every step in a trial carries out the first attempt that is left, if it makes one, and lowers
the rank, unless the distance to the mark after a batch cannot be represented. -/
theorem Phase.step {c : Consumer} {left : List Attempt} (htries : t.delays.length < 0xFFFFFFFF)
    (hfits : t.Measures c) (h : t.Phase c s n left)
    (hready : c.wait s now = .ready) (hserved : c.isServed s now) (hgoverns : t.governs n c p now) :
    t.Advances (s.row t.shard) c.stage.toGo n left (c.attempt p s now)
      ((c.step p s now).1, (c.step p s now).2.2) := by
  cases h with
  | opens h =>
    rw [h.holds.row]
    exact h.step_opening p now
  | loads h =>
    rw [h.holds.row]
    exact h.step_loading p now hserved
  | fetches h hmark =>
    rw [h.holds.row]
    exact h.step_fetching p now hmark hserved
  | @applies _ _ _ _ b due _ _ h hne =>
    obtain ⟨e, es, hes⟩ := List.exists_cons_of_ne_nil hne
    have happlied := h.applied p now hes hgoverns
    rw [h.holds.row]
    simp only [Consumer.step, Consumer.attempt, hes, List.head?_cons, Option.map_some]
    exact happlied
  | closes h hes =>
    rw [h.holds.row]
    exact h.step_closing p now (hfits _ rfl) hes hserved
  | saves hs h hrule hlt =>
    rw [hs.row]
    exact h.step_saving p now hs hrule hlt hserved
  | fails hs h hrule =>
    rw [hs.row]
    exact h.step_failing p now htries hs hrule
  | resolves hs h =>
    rw [hs.row]
    exact h.step_reporting p now hs
  | waits hs h hn =>
    rw [hs.row]
    exact h.step_backingOff p now hs hn
  | rests hs hpasses =>
    have hcontrol := hs.handle.handle.1
    simp [Consumer.wait, Wait.for, hs.shutdown, hs.mark, hcontrol, Watched.isNew] at hready
  | ends hstatus hf hm => cases hready

end

end Trial

end Tidemark
