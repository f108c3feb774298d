import Mathlib.Data.Nat.Count
import Tidemark.Proofs.Daemon.Moves
import Tidemark.Proofs.Daemon.Registration
import Tidemark.Proofs.Policy.Resolution
import Tidemark.Proofs.Shard.Counting

/-!
# Failures in a row

Failures of a shard may be reported by its consumer and from outside, while the other shards, the
workers and the calls go on with theirs. The count of a shard is reset by a continuation that counts
a failure as dealt with and by a batch that is completed, and by nothing else. So after as many
failures in a row as there may be, the next one is resolved by how many there were
(`Course.resolved_in_row`), but the count has 32 bits: the attempts are numbered one after another
up to the failure number `2 ^ 32`, and then from one again.

Failures are counted by identity. Two shards whose names make up the same identity have one count,
and the first failure of one of them may be resolved as a second attempt
(`Course.exists_shared_count`).
-/

namespace Tidemark

variable {L π : Type}

/-! ## What moves do to counts -/

/-- How many failures of each shard are counted, for those that are registered. -/
def Daemon.counted (d : Daemon L π) (shard : String) : Option ℕ :=
  d.handles.bind (·.counted shard)

/-- The count of a shard, once the daemon was launched. -/
theorem Daemon.counted_eq {d : Daemon L π} {s : Supervisor} (hs : d.supervisor = some s)
    (shard : String) : d.counted shard = s.shards.counted shard := by
  rw [counted, handles, hs]
  rfl

/-- The policy of a daemon that was launched. -/
theorem Daemon.currentPolicy_eq {d : Daemon L π} {s : Supervisor} (hs : d.supervisor = some s) :
    d.currentPolicy = s.policy := by
  rw [currentPolicy, hs]

namespace DaemonMove

/-- What is noted of a move about the failures of a shard: what its own consumer does, or a report
from outside. -/
def noted [EventLog L] (d : Daemon L π) (shard : String) : DaemonMove → Noted
  | .task now (.consumer k) =>
    match d.supervisor, d.consumers[k]?, d.projections[k]? with
    | some s, some c, some _ =>
      if c.identity = shard then c.noted (d.surroundings s) now else .nothing
    | _, _, _ => .nothing
  | .report name e => if name.identity = shard then .failed e else .nothing
  | _ => .nothing

/-- The continuation that resolves the failure of a shard in a move. -/
def resolution? [EventLog L] (d : Daemon L π) (shard : String) (m : DaemonMove) :
    Option Continuation :=
  match m.noted d shard, d.supervisor with
  | .failed e, some s => (s.report d.commons.metrics shard e).1.continuation?
  | _, _ => none

/-- A move resets the count of a shard. -/
def Resets [EventLog L] (d : Daemon L π) (shard : String) (m : DaemonMove) : Prop :=
  m.noted d shard = .completed ∨ ∃ c, m.resolution? d shard = some c ∧ c.resolves

variable [EventLog L]

/-- A failure is resolved by the policy, by the number of the attempt. -/
theorem resolution?_of_failed {d : Daemon L π} {shard : String} {m : DaemonMove} {e : Failure}
    (hfailed : m.noted d shard = .failed e) :
    m.resolution? d shard = (d.counted shard).map fun n =>
      d.currentPolicy.determine e (ShardHandle.attemptAfter n) := by
  rw [resolution?, hfailed]
  cases hs : d.supervisor with
  | none => rw [Daemon.counted, Daemon.handles, hs]; rfl
  | some s =>
    rw [Daemon.counted_eq hs, Daemon.currentPolicy_eq hs]
    exact s.continuation?_report d.commons.metrics shard e

/-- A move that does nothing to the shards leaves their counts. -/
theorem noted_of_idle {d : Daemon L π} {m : DaemonMove} (h : m.Idle d) (shard : String) :
    (m.noted d shard).count d.currentPolicy (d.counted shard) = d.counted shard := by
  have hnone (h : d.supervisor = none) : d.counted shard = none := by
    rw [Daemon.counted, Daemon.handles, h]
    rfl
  cases m with
  | task now task =>
    cases task with
    | consumer k =>
      have hnothing : noted d shard (.task now (.consumer k)) = .nothing := by
        simp only [noted]
        split
        · next hs hc hp => exact absurd h (by simp [Idle, hs, hc, hp])
        · rfl
      rw [hnothing]
      rfl
    | _ => rfl
  | report name e =>
    rw [hnone h]
    simp only [noted]
    split_ifs <;> rfl
  | _ => rfl

end DaemonMove

variable [EventLog L] [Projection π]

/-- What a move does to the count of a shard is what is noted of it. -/
theorem Effect.counted {d d' : Daemon L π} {m : DaemonMove} (h : Effect d d' m) (shard : String) :
    d'.counted shard = (m.noted d shard).count d.currentPolicy (d.counted shard) := by
  cases h with
  | nothing h hidle =>
    rw [DaemonMove.noted_of_idle hidle, Daemon.counted, h.handles, Daemon.counted]
  | @command now k s item command due r h hs hw hr hd =>
    rw [Daemon.counted, hd, Option.bind_some, Registry.counted_apply hr, Daemon.counted_eq hs]
    rfl
  | @report name e s h hs hd =>
    rw [Daemon.counted, hd, Option.bind_some, s.counted_report, Daemon.counted_eq hs,
      Daemon.currentPolicy_eq hs, DaemonMove.noted]
    by_cases hname : name.identity = shard
    · rw [if_pos hname, ← hname, Function.update_self]
      rfl
    · rw [if_neg hname, Function.update_of_ne (Ne.symm hname)]
      rfl
  | @consumer now k s c p h =>
    have hafter : d'.counted shard =
        (c.step p (d.surroundings s) now).2.2.counted shard := Daemon.counted_eq h.supervisor shard
    simp only [DaemonMove.noted, h.before, h.consumer, h.projection]
    rw [hafter, c.counted_step p, Daemon.counted_eq h.before, Daemon.currentPolicy_eq h.before]
    by_cases hidentity : c.identity = shard
    · rw [if_pos hidentity, ← hidentity, Function.update_self]
      rfl
    · rw [if_neg hidentity, Function.update_of_ne (Ne.symm hidentity)]
      rfl

omit [EventLog L] in
/-- No failure of a shard is counted after the launch. -/
theorem Daemon.counted_of_launch {d d' : Daemon L π} {found found' : Statistics}
    (h : d.launch found = (.ok found', d')) {shard : String} {n : ℕ}
    (hn : d'.counted shard = some n) : n = 0 := by
  have hbooting := launch_booting d found
  rw [h] at hbooting
  obtain ⟨-, ⟨s, hs, hshards⟩, -⟩ := hbooting
  rw [counted_eq hs, hshards, Registry.counted, Registry.find?_ofNames] at hn
  cases hfind : d.names.reverse.find? (·.identity = shard) with
  | none => simp [hfind] at hn
  | some name =>
    rw [hfind] at hn
    exact (Option.some.inj hn).symm

/-! ## Streaks -/

namespace Course

variable (x : Course L π) (shard : String)

/-- What is noted of a move on a course about the failures of a shard. -/
def noted (n : ℕ) : Noted := (x.move n).noted (x.state n) shard

/-- The continuation that resolves the failure of a shard in a move. -/
def resolution? (n : ℕ) : Option Continuation := (x.move n).resolution? (x.state n) shard

/-- A move resets the count of a shard. -/
def Resets (n : ℕ) : Prop := (x.move n).Resets (x.state n) shard

/-- A streak of failures begins before a move: the daemon was launched, or the count of the shard
was reset. -/
inductive Begins : ℕ → Prop
  | launched : Begins 0
  | reset {n : ℕ} (h : x.Resets shard n) : Begins (n + 1)

/-- The number of failures of a shard that are reported in so many moves from a move on. -/
def failures (a m : ℕ) : ℕ := Nat.count (fun j => (x.noted shard (a + j)).isFailure) m

variable {x shard} {a m n : ℕ}

/-- A further move counts if it reports a failure. -/
theorem failures_succ : x.failures shard a (m + 1) =
    x.failures shard a m + if (x.noted shard (a + m)).isFailure then 1 else 0 :=
  Nat.count_succ _ _

/-- What a move does to the count of a shard is what is noted of it. -/
theorem counted_succ : (x.state (n + 1)).counted shard =
    (x.noted shard n).count (x.state n).currentPolicy ((x.state n).counted shard) :=
  (x.effect n).counted shard

/-- A failure is resolved by the policy, by the number of the attempt. -/
theorem resolution?_eq {e : Failure} (hfailed : x.noted shard n = .failed e) :
    x.resolution? shard n = ((x.state n).counted shard).map fun counted =>
      (x.state n).currentPolicy.determine e (ShardHandle.attemptAfter counted) :=
  DaemonMove.resolution?_of_failed hfailed

/-- A reset leaves no failure counted. -/
theorem Resets.counted_eq_zero (h : x.Resets shard n) {counted : ℕ}
    (hcounted : (x.state (n + 1)).counted shard = some counted) : counted = 0 := by
  rw [counted_succ] at hcounted
  rcases h with hcompleted | ⟨c, hresolution, hresolves⟩
  · rw [show x.noted shard n = .completed from hcompleted] at hcounted
    obtain ⟨-, -, hzero⟩ := Option.map_eq_some_iff.mp hcounted
    exact hzero.symm
  · cases hnoted : x.noted shard n with
    | nothing | completed =>
      rw [DaemonMove.resolution?, show (x.move n).noted (x.state n) shard = _ from hnoted]
        at hresolution
      cases hresolution
    | failed e =>
      rw [hnoted] at hcounted
      obtain ⟨before, hbefore, hcount⟩ := Option.map_eq_some_iff.mp hcounted
      -- The failure is resolved as dealt with.
      have hc := resolution?_eq hnoted
      rw [hbefore, resolution?, hresolution] at hc
      obtain rfl := Option.some.inj hc
      rw [← hcount, Policy.countOn, if_pos hresolves]

/-- No failure is counted where a streak begins. -/
theorem Begins.counted_eq_zero (h : x.Begins shard a) {counted : ℕ}
    (hcounted : (x.state a).counted shard = some counted) : counted = 0 := by
  cases h with
  | launched =>
    obtain ⟨d, found, hlaunch⟩ := x.launch
    exact Daemon.counted_of_launch hlaunch hcounted
  | reset h => exact h.counted_eq_zero hcounted

/-- Without a reset, a failure is counted in 32 bits. -/
theorem counted_of_not_resets (h : ¬ x.Resets shard n) {counted : ℕ}
    (hcounted : (x.state n).counted shard = some counted) :
    (x.state (n + 1)).counted shard =
      some (if (x.noted shard n).isFailure then (counted + 1) % 0x100000000 else counted) := by
  rw [counted_succ, hcounted]
  cases hnoted : x.noted shard n with
  | nothing => rfl
  | completed => exact absurd (.inl hnoted) h
  | failed e =>
    have hresolution := resolution?_eq hnoted
    rw [hcounted] at hresolution
    have hresolves := mt (fun hresolves => Or.inr ⟨_, hresolution, hresolves⟩) h
    rw [Noted.count, Option.map_some, Policy.countOn, if_neg hresolves]
    rfl

/-- In a streak, the count of a shard is the number of failures so far, in 32 bits. -/
theorem counted_in_streak (hregistered : ((x.state a).counted shard).isSome)
    (hbegins : x.Begins shard a) (hstreak : ∀ j < m, ¬ x.Resets shard (a + j)) :
    (x.state (a + m)).counted shard = some (x.failures shard a m % 0x100000000) := by
  induction m with
  | zero =>
    obtain ⟨counted, hcounted⟩ := Option.isSome_iff_exists.mp hregistered
    rw [Nat.add_zero, hcounted, hbegins.counted_eq_zero hcounted]
    rfl
  | succ m ih =>
    have hsofar := ih fun j hj => hstreak j (by omega)
    rw [← Nat.add_assoc, counted_of_not_resets (hstreak m (Nat.lt_succ_self m)) hsofar,
      failures_succ]
    split_ifs
    · rw [Nat.mod_add_mod]
    · rfl

/-- In a streak, a failure is resolved by the number of failures so far, in 32 bits. -/
theorem resolution?_in_streak {e : Failure} (hregistered : ((x.state a).counted shard).isSome)
    (hbegins : x.Begins shard a) (hstreak : ∀ j < m, ¬ x.Resets shard (a + j))
    (hfailed : x.noted shard (a + m) = .failed e) :
    x.resolution? shard (a + m) = some ((x.state (a + m)).currentPolicy.determine e
      (ShardHandle.attemptAfter (x.failures shard a m % 0x100000000))) := by
  rw [resolution?_eq hfailed, counted_in_streak hregistered hbegins hstreak, Option.map_some]

end Course

/-- The attempts of a streak are numbered one after another up to the failure number `2 ^ 32`, where
the numbers stop at the largest one. Behind it they agree with that only where the count is at its
largest values again. -/
theorem ShardHandle.attemptAfter_eq_iff (f : ℕ) :
    attemptAfter (f % 0x100000000) = min (f + 1) 0xFFFFFFFF ↔
      f < 0x100000000 ∨ 0xFFFFFFFE ≤ f % 0x100000000 := by
  unfold attemptAfter
  omega

/-- Behind the end of the chain of the rule that decides, a policy gives the same for all attempts,
and no retry. -/
theorem Policy.Decides.determine_behind {p : Policy} {e : Failure} {r : Rule} (h : p.Decides e r)
    {attempt : ℕ} (hbehind : r.chain.length < attempt) :
    p.determine e attempt = Rule.afterEnd r.chain ∧ ∀ d, p.determine e attempt ≠ .retryLater d := by
  rw [h.determine_eq]
  refine ⟨Rule.continuationFor_behind (lt_max_of_lt_left hbehind), fun d hretry => ?_⟩
  have hgives := r.gives_continuationFor attempt
  rw [hretry] at hgives
  exact absurd hgives.le_length_of_retryLater (by omega)

namespace Course

variable {x : Course L π} {shard : String} {a m : ℕ}

/-- In a streak of failures of a shard, a failure that comes after `f` others is resolved by the
policy, by the number of the attempt that follows `f` in 32 bits. This is `f + 1`, or the largest
number of 32 bits once that is reached, for the first `2 ^ 32` failures, and not for the next one.
Among these, once a failure was resolved behind the end of the chain of its rule, the later ones of
the same rule are resolved in the same way, and never by a retry. -/
theorem resolved_in_row {e : Failure} (hregistered : ((x.state a).counted shard).isSome)
    (hbegins : x.Begins shard a) (hstreak : ∀ j < m, ¬ x.Resets shard (a + j))
    (hfailed : x.noted shard (a + m) = .failed e) :
    x.resolution? shard (a + m) = some ((x.state (a + m)).currentPolicy.determine e
        (ShardHandle.attemptAfter (x.failures shard a m % 0x100000000))) ∧
      (ShardHandle.attemptAfter (x.failures shard a m % 0x100000000) =
          min (x.failures shard a m + 1) 0xFFFFFFFF ↔
        x.failures shard a m < 0x100000000 ∨ 0xFFFFFFFE ≤ x.failures shard a m % 0x100000000) ∧
      ∀ j < m, ∀ e' r, x.noted shard (a + j) = .failed e' →
        (x.state (a + j)).currentPolicy.Decides e' r →
          (x.state (a + m)).currentPolicy.Decides e r →
            r.chain.length < min (x.failures shard a j + 1) 0xFFFFFFFF →
              x.failures shard a m < 0x100000000 →
                x.resolution? shard (a + m) = x.resolution? shard (a + j) ∧
                  ∀ d, x.resolution? shard (a + m) ≠ some (.retryLater d) := by
  have hlast := resolution?_in_streak hregistered hbegins hstreak hfailed
  refine ⟨hlast, ShardHandle.attemptAfter_eq_iff _, ?_⟩
  intro j hj e' r hfailed' hdecides' hdecides hpast hfew
  have hearlier := resolution?_in_streak hregistered hbegins
    (fun i hi => hstreak i (hi.trans hj)) hfailed'
  have hmono : x.failures shard a j ≤ x.failures shard a m := Nat.count_monotone _ hj.le
  -- Neither of the two failures is so late that the count has gone round.
  rw [(ShardHandle.attemptAfter_eq_iff _).mpr (.inl (hmono.trans_lt hfew))] at hearlier
  rw [(ShardHandle.attemptAfter_eq_iff _).mpr (.inl hfew)] at hlast
  have hpast' : r.chain.length < min (x.failures shard a m + 1) 0xFFFFFFFF := by omega
  obtain ⟨hsame', -⟩ := hdecides'.determine_behind hpast
  obtain ⟨hsame, hretry⟩ := hdecides.determine_behind hpast'
  rw [hearlier, hlast, hsame', hsame]
  refine ⟨rfl, fun d hd => hretry d ?_⟩
  rw [hsame]
  exact Option.some.inj hd

/-! ## Rehearsals -/

/-- Retries what takes too long once, after a millisecond. -/
def retryingOnce : Policy := ⟨[⟨.ofCategory .timeout, [.retryLater (.ofMillis 1)]⟩]⟩

/-- Something takes too long. -/
def late : Failure := .plain .timeout "late"

/-- A daemon that retries what takes too long once, with as many of some shards as it accepts. -/
def retrying (shards : List ShardName) : Daemon MemoryLog Rehearsal.ScriptedProjection :=
  { config := {}
    commons := { log := {}, origin := ⟨0, false⟩ }
    agent := .new {}
    policy := retryingOnce
    projections := (Daemon.rehearsed shards).projections }

/-- The course on which failures of shards are reported from outside, one after another. -/
def reporting (shards reports : List ShardName) : Course MemoryLog Rehearsal.ScriptedProjection :=
  ofMoves (retrying shards) (.empty ⟨0, false⟩) (by rfl)
    (reports.map fun shard => .report shard late)
    (by simp [DaemonMove.Follows])

/-- Of three failures in a row, the first one is retried. The second one is behind the end of the
chain, and so is the third one. -/
theorem resolved_in_row_of_three :
    let x := reporting [.whole "T"] [.whole "T", .whole "T", .whole "T"]
    x.resolution? "T:All" 0 = some (.retryLater (.ofMillis 1)) ∧
      x.resolution? "T:All" 1 = some .stopShard ∧
        x.resolution? "T:All" 2 = x.resolution? "T:All" 1 := by
  intro x
  let rule : Rule := ⟨.ofCategory .timeout, [.retryLater (.ofMillis 1)]⟩
  have hretry : x.resolution? "T:All" 0 = some (.retryLater (.ofMillis 1)) := by rfl
  have hstop : x.resolution? "T:All" 1 = some .stopShard := by rfl
  have hfirst : ¬ x.Resets "T:All" (0 + 0) := by
    rintro (hcompleted | ⟨c, hc, hresolves⟩)
    · cases hcompleted
    · cases hretry.symm.trans hc
      cases hresolves
  have hsecond : ¬ x.Resets "T:All" (0 + 1) := by
    rintro (hcompleted | ⟨c, hc, hresolves⟩)
    · cases hcompleted
    · cases hstop.symm.trans hc
      cases hresolves
  have hstreak : ∀ j < 2, ¬ x.Resets "T:All" (0 + j)
    | 0, _ => hfirst
    | 1, _ => hsecond
  have hdecides : retryingOnce.Decides late rule := ⟨[], [], rfl, by decide, by simp⟩
  obtain ⟨-, -, hsame⟩ := resolved_in_row (x := x) (a := 0) (m := 2) (e := late) (by rfl) .launched
    hstreak (by rfl)
  exact ⟨hretry, hstop,
    (hsame 1 (by decide) late rule (by rfl) hdecides hdecides (by decide +kernel)
      (by decide +kernel)).1⟩

/-- A shard `a:b` with the key `c` and a shard `a` with the key `b:c` have the same identity. When
each of them has failed once, the second failure is resolved behind the end of the chain, while the
chain retries the first failure of a shard. -/
theorem exists_shared_count :
    let x := reporting [⟨"a:b", "c"⟩, ⟨"a", "b:c"⟩] [⟨"a:b", "c"⟩, ⟨"a", "b:c"⟩]
    (x.state 0).names = [⟨"a:b", "c"⟩, ⟨"a", "b:c"⟩] ∧
      x.move 0 = .report ⟨"a:b", "c"⟩ late ∧ x.move 1 = .report ⟨"a", "b:c"⟩ late ∧
        (x.state 1).currentPolicy.determine late 1 = .retryLater (.ofMillis 1) ∧
          x.resolution? (ShardName.identity ⟨"a", "b:c"⟩) 1 = some .stopShard := by
  exact ⟨by rfl, rfl, rfl, by rfl, by rfl⟩

/-- The course on which the same failure of a shard is reported for ever. -/
def repeating : Course MemoryLog Rehearsal.ScriptedProjection where
  state := Nat.rec ((retrying [.whole "T"]).launch (.empty ⟨0, false⟩)).2 fun _ d =>
    d.perform (.report (.whole "T") late)
  move _ := .report (.whole "T") late
  launch := ⟨retrying [.whole "T"], .empty ⟨0, false⟩, Prod.ext (by rfl) rfl⟩
  moved _ := .performs (m := .report (.whole "T") late) trivial

/-- The failures of that course are resolved by the same policy. -/
theorem currentPolicy_repeating (n : ℕ) : (repeating.state n).currentPolicy = retryingOnce := by
  induction n with
  | zero => rfl
  | succ n ih =>
    show ((repeating.state n).report (.whole "T") late).2.currentPolicy = retryingOnce
    rw [← ih, Daemon.report]
    cases hs : (repeating.state n).supervisor with
    | none => rfl
    | some s => exact (s.policy_report _ _ late).trans (Daemon.currentPolicy_eq hs).symm

/-- What takes too long is retried on the first attempt only. -/
theorem determine_retryingOnce (attempt : ℕ) : retryingOnce.determine late attempt =
    if attempt ≤ 1 then .retryLater (.ofMillis 1) else .stopShard := by
  have hdecides : retryingOnce.Decides late ⟨.ofCategory .timeout, [.retryLater (.ofMillis 1)]⟩ :=
    ⟨[], [], rfl, by decide, by simp⟩
  split_ifs with hfirst
  · rw [hdecides.determine_eq]
    have hchain : [.retryLater (.ofMillis 1)] = [] ++ Continuation.retryLater (.ofMillis 1) :: [] :=
      rfl
    exact Rule.continuationFor_entry hchain (max_eq_right hfirst).symm
  · exact (hdecides.determine_behind (not_le.mp hfirst)).1

/-- No move of that course resets the count. -/
theorem not_resets_repeating (n : ℕ) : ¬ repeating.Resets "T:All" n := by
  have hnoted : repeating.noted "T:All" n = .failed late := rfl
  rintro (hcompleted | ⟨c, hc, hresolves⟩)
  · cases hcompleted
  · have hresolution := resolution?_eq hnoted
    obtain ⟨counted, -, rfl⟩ := Option.map_eq_some_iff.mp (hresolution.symm.trans hc)
    rw [currentPolicy_repeating, determine_retryingOnce] at hresolves
    split_ifs at hresolves <;> cases hresolves

/-- Every move of that course reports a failure. -/
theorem failures_repeating (n : ℕ) : repeating.failures "T:All" 0 n = n := by
  induction n with
  | zero => rfl
  | succ n ih =>
    have hfailure : (repeating.noted "T:All" (0 + n)).isFailure := rfl
    rw [failures_succ, ih, if_pos hfailure]

/-- After `2 ^ 32` failures in a row without a reset, the next one is retried as if it were the
first one, although the second one was not. -/
theorem exists_wrapped_attempt :
    (∀ n, ¬ repeating.Resets "T:All" n) ∧ repeating.failures "T:All" 0 0x100000000 = 0x100000000 ∧
      repeating.resolution? "T:All" 1 = some .stopShard ∧
        repeating.resolution? "T:All" 0x100000000 = some (.retryLater (.ofMillis 1)) := by
  have hresolution (n : ℕ) : repeating.resolution? "T:All" (0 + n) = some
      (if ShardHandle.attemptAfter (n % 0x100000000) ≤ 1 then .retryLater (.ofMillis 1)
        else .stopShard) := by
    have hfailed : repeating.noted "T:All" (0 + n) = .failed late := rfl
    have hstreak := resolution?_in_streak (by rfl) .launched (fun j _ => not_resets_repeating _)
      hfailed
    rwa [failures_repeating, currentPolicy_repeating, determine_retryingOnce] at hstreak
  refine ⟨not_resets_repeating, failures_repeating _, ?_, ?_⟩
  · simpa [ShardHandle.attemptAfter] using hresolution 1
  · simpa [ShardHandle.attemptAfter] using hresolution 0x100000000

end Course

end Tidemark
