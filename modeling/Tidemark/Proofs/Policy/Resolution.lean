import Tidemark.Policy.Rule

/-!
# How a policy resolves a failure

A policy is built by registrations: a rule with its whole chain, a rule with one continuation, or
a rule that retries after some delays and is then, or is not, given one more continuation while it
already stands in the policy. Whatever the mixture, the policy ends up with one rule for each
registration, in their order (`rules_registered`).

What such a policy answers has a reference that looks up nothing and knows no policy. `Chain.Gives`
splits a chain at the entry that stands for an attempt, and beyond its end at its last entry;
`Rule.Resolves` splits a list of rules at the first that accepts the failure. `determine_eq_iff`
shows that `determine` is that reference on the rules of its policy. `registered_determine` states
it over the rules that a series of registrations stands for, whatever the policy holds, together
with what follows: no retry behind the end of a chain, the continuation given afterwards counted as
the last entry of the chain, and answers that no later registration changes.
-/

namespace Tidemark

/-! ## Chains -/

/-- What a chain gives for an attempt, where the attempts count from one and zero counts as one:
the entry at that place; behind the end the last entry, unless there is none or it is a retry, and
then the stop of the shard. -/
inductive Chain.Gives : List Continuation → Nat → Continuation → Prop
  /-- The attempt has an entry of its own. -/
  | entry {before after : List Continuation} {c : Continuation} {attempt : Nat}
      (hplace : before.length + 1 = max attempt 1) : Gives (before ++ c :: after) attempt c
  /-- The attempt lies behind the end, and the last entry is not a retry. -/
  | last {before : List Continuation} {c : Continuation} {attempt : Nat}
      (hbehind : before.length + 1 < max attempt 1) (hlast : ∀ d, c ≠ .retryLater d) :
      Gives (before ++ [c]) attempt c
  /-- The attempt lies behind the end, and the last entry is a retry. -/
  | exhausted {before : List Continuation} {d : Duration} {attempt : Nat}
      (hbehind : before.length + 1 < max attempt 1) :
      Gives (before ++ [.retryLater d]) attempt .stopShard
  /-- The chain is empty. -/
  | nothing {attempt : Nat} : Gives [] attempt .stopShard

namespace Rule

/-- A rule whose chain has an entry for the attempt answers with that entry. -/
theorem continuationFor_entry {r : Rule} {before after : List Continuation} {c : Continuation}
    {attempt : Nat} (hchain : r.chain = before ++ c :: after)
    (hplace : before.length + 1 = max attempt 1) : r.continuationFor attempt = c := by
  have hindex : max attempt 1 - 1 = before.length := by omega
  simp [continuationFor, hchain, hindex]

/-- Behind the end of its chain a rule answers with what stands for all further attempts. -/
theorem continuationFor_behind {r : Rule} {attempt : Nat}
    (hbehind : r.chain.length < max attempt 1) :
    r.continuationFor attempt = afterEnd r.chain := by
  have hnone : r.chain[max attempt 1 - 1]? = none := List.getElem?_eq_none (by omega)
  simp [continuationFor, hnone]

/-- A rule answers with what its chain gives. -/
theorem gives_continuationFor (r : Rule) (attempt : Nat) :
    Chain.Gives r.chain attempt (r.continuationFor attempt) := by
  rcases Nat.lt_or_ge r.chain.length (max attempt 1) with hbehind | hwithin
  · rw [continuationFor_behind hbehind]
    rcases List.eq_nil_or_concat r.chain with hnil | ⟨before, c, hconcat⟩
    · rw [hnil]
      exact .nothing
    · rw [hconcat] at hbehind ⊢
      have hplace : before.length + 1 < max attempt 1 := by simpa using hbehind
      cases c with
      | retryLater d => simpa [afterEnd] using Chain.Gives.exhausted hplace
      | _ => simpa [afterEnd] using Chain.Gives.last hplace (by simp)
  · obtain ⟨i, hi⟩ : ∃ i, max attempt 1 = i + 1 := ⟨max attempt 1 - 1, by omega⟩
    have hlt : i < r.chain.length := by omega
    have hsplit : r.chain = r.chain.take i ++ r.chain[i] :: r.chain.drop (i + 1) := by
      rw [List.getElem_cons_drop, List.take_append_drop]
    have hplace : (r.chain.take i).length + 1 = max attempt 1 := by
      rw [List.length_take_of_le (by omega), hi]
    rw [continuationFor_entry hsplit hplace]
    have hentry : Chain.Gives (r.chain.take i ++ r.chain[i] :: r.chain.drop (i + 1)) attempt
        r.chain[i] := .entry hplace
    rwa [← hsplit] at hentry

/-- What a chain gives is what a rule with that chain answers. -/
theorem continuationFor_of_gives {r : Rule} {chain : List Continuation} {attempt : Nat}
    {c : Continuation} (h : Chain.Gives chain attempt c) (hchain : r.chain = chain) :
    r.continuationFor attempt = c := by
  cases h with
  | entry hplace => exact continuationFor_entry hchain hplace
  | last hbehind hlast =>
    rw [continuationFor_behind (by simpa [hchain] using hbehind), hchain]
    cases c with
    | retryLater d => exact absurd rfl (hlast d)
    | _ => simp [afterEnd]
  | exhausted hbehind =>
    rw [continuationFor_behind (by simpa [hchain] using hbehind), hchain]
    simp [afterEnd]
  | nothing => simp [continuationFor, afterEnd, hchain]

end Rule

/-- A retry is only ever given for an attempt that has an entry of its own. -/
theorem Chain.Gives.le_length_of_retryLater {chain : List Continuation} {attempt : Nat}
    {d : Duration} (h : Chain.Gives chain attempt (.retryLater d)) : attempt ≤ chain.length := by
  generalize hc : Continuation.retryLater d = c at h
  cases h with
  | @entry before after _ _ hplace =>
    simp only [List.length_append, List.length_cons]
    omega
  | last _ hlast => exact absurd hc.symm (hlast d)
  | exhausted => cases hc
  | nothing => cases hc

/-! ## Rules in their order -/

/-- A rule of the list accepts the failure, and no rule before it does. -/
def Rule.IsFirst (rules : List Rule) (e : Failure) (r : Rule) : Prop :=
  ∃ before after, rules = before ++ r :: after ∧ r.filter.accepts e ∧
    ∀ x ∈ before, ¬ x.filter.accepts e

/-- What a list of rules gives for a failure on an attempt: what the chain of the first accepting
rule gives, and the stop of the shard where no rule accepts the failure. -/
inductive Rule.Resolves (rules : List Rule) (e : Failure) (attempt : Nat) : Continuation → Prop
  /-- A rule accepts the failure, as the first one. -/
  | decided {r : Rule} {c : Continuation} (hfirst : Rule.IsFirst rules e r)
      (hgives : Chain.Gives r.chain attempt c) : Resolves rules e attempt c
  /-- No rule accepts the failure. -/
  | undecided (hnone : ∀ r ∈ rules, ¬ r.filter.accepts e) : Resolves rules e attempt .stopShard

namespace Rule

variable {rules : List Rule} {e : Failure} {r : Rule}

/-- The rule that a search finds is the first that accepts. -/
theorem isFirst_iff_find? : IsFirst rules e r ↔ rules.find? (·.filter.accepts e) = some r := by
  rw [List.find?_eq_some_iff_append]
  constructor
  · rintro ⟨before, after, hsplit, haccepts, hbefore⟩
    exact ⟨haccepts, before, after, hsplit, fun x hx => by simpa using hbefore x hx⟩
  · rintro ⟨haccepts, before, after, hsplit, hbefore⟩
    exact ⟨before, after, hsplit, haccepts, fun x hx => by simpa using hbefore x hx⟩

/-- Where some rule accepts the failure, one of them is the first. -/
theorem exists_isFirst (haccepts : ∃ r ∈ rules, r.filter.accepts e) :
    ∃ r, IsFirst rules e r := by
  simp only [isFirst_iff_find?]
  rwa [← Option.isSome_iff_exists, List.find?_isSome]

/-- The first rule that accepts remains the first when further rules follow. -/
theorem IsFirst.append (h : IsFirst rules e r) (more : List Rule) :
    IsFirst (rules ++ more) e r := by
  obtain ⟨before, after, hsplit, haccepts, hbefore⟩ := h
  exact ⟨before, after ++ more, by simp [hsplit], haccepts, hbefore⟩

end Rule

namespace Policy

/-- A rule of the policy accepts the failure, and no rule before it does. -/
def Decides (p : Policy) (e : Failure) (r : Rule) : Prop :=
  Rule.IsFirst p.rules e r

/-- The rule that decides answers. -/
theorem Decides.determine_eq {p : Policy} {e : Failure} {r : Rule} (h : p.Decides e r)
    (attempt : Nat) : p.determine e attempt = r.continuationFor attempt := by
  simp [determine, Rule.isFirst_iff_find?.mp h]

/-- A policy answers with what its rules resolve to by the reference. -/
theorem resolves_determine (p : Policy) (e : Failure) (attempt : Nat) :
    Rule.Resolves p.rules e attempt (p.determine e attempt) := by
  by_cases haccepts : ∃ r ∈ p.rules, r.filter.accepts e
  · obtain ⟨r, hfirst⟩ := Rule.exists_isFirst haccepts
    rw [Decides.determine_eq hfirst]
    exact .decided hfirst (r.gives_continuationFor attempt)
  · have hnone : ∀ r ∈ p.rules, ¬ r.filter.accepts e := fun r hr hr' => haccepts ⟨r, hr, hr'⟩
    have hstop : p.determine e attempt = .stopShard := by
      simp [determine, List.find?_eq_none.mpr hnone]
    rw [hstop]
    exact .undecided hnone

/-- A policy answers with a continuation exactly when its rules resolve to it by the reference. -/
theorem determine_eq_iff {p : Policy} {e : Failure} {attempt : Nat} {c : Continuation} :
    p.determine e attempt = c ↔ Rule.Resolves p.rules e attempt c := by
  constructor
  · rintro rfl
    exact p.resolves_determine e attempt
  · rintro (⟨hfirst, hgives⟩ | hnone)
    · rw [Decides.determine_eq hfirst]
      exact Rule.continuationFor_of_gives hgives rfl
    · simp [determine, List.find?_eq_none.mpr hnone]

end Policy

/-! ## Registrations -/

/-- One registration with a policy, the way it is written. -/
inductive Registration where
  /-- A rule with its whole chain. -/
  | add (filter : Filter) (chain : List Continuation)
  /-- A rule with one continuation. -/
  | single (filter : Filter) (c : Continuation)
  /-- A rule that retries after each of the delays. -/
  | retries (filter : Filter) (delays : List Duration)
  /-- A rule that retries after each of the delays, and the continuation it is given then. -/
  | retriesThen (filter : Filter) (delays : List Duration) (c : Continuation)

namespace Registration

/-- The policy after the registration. -/
def register : Registration → Policy → Policy
  | add filter chain, p => p.add filter chain
  | single filter c, p => p.addSingle filter c
  | retries filter delays, p => p.addRetries filter delays
  | retriesThen filter delays c, p => (p.addRetries filter delays).thenLast c

/-- The rule that the registration stands for. -/
def rule : Registration → Rule
  | add filter chain => ⟨filter, chain⟩
  | single filter c => ⟨filter, [c]⟩
  | retries filter delays => ⟨filter, delays.map .retryLater⟩
  | retriesThen filter delays c => ⟨filter, delays.map .retryLater ++ [c]⟩

/-- A registration appends its rule and leaves the others as they are. -/
theorem rules_register (s : Registration) (p : Policy) :
    (s.register p).rules = p.rules ++ [s.rule] := by
  cases s with
  | retriesThen filter delays c =>
    simp [register, rule, Policy.addRetries, Policy.add, Policy.thenLast]
  | _ => simp [register, rule, Policy.addRetries, Policy.addSingle, Policy.add]

end Registration

/-- The policy that a series of registrations builds. -/
def Policy.registered (series : List Registration) : Policy :=
  series.foldl (fun p s => s.register p) {}

/-- A series of registrations appends its rules to those of a policy. -/
theorem rules_foldl_register (series : List Registration) (p : Policy) :
    (series.foldl (fun p s => s.register p) p).rules = p.rules ++ series.map Registration.rule := by
  induction series generalizing p with
  | nil => simp
  | cons s series ih => simp [ih, s.rules_register]

/-- A policy holds one rule for each registration, in their order. -/
theorem rules_registered (series : List Registration) :
    (Policy.registered series).rules = series.map Registration.rule := by
  simp [Policy.registered, rules_foldl_register]

/-- Registrations that stand for the same rules build the same policy. -/
theorem registered_congr {series others : List Registration}
    (h : series.map Registration.rule = others.map Registration.rule) :
    Policy.registered series = Policy.registered others := by
  have hrules := (rules_registered series).trans (h.trans (rules_registered others).symm)
  exact congrArg Policy.mk hrules

/-- The first of the registered rules that accepts a failure answers. -/
theorem determine_registered {series : List Registration} {e : Failure} {r : Rule}
    (h : Rule.IsFirst (series.map Registration.rule) e r) (attempt : Nat) :
    (Policy.registered series).determine e attempt = r.continuationFor attempt := by
  rw [← rules_registered] at h
  exact Policy.Decides.determine_eq h attempt

/-- For every series of registrations, every failure and every attempt, the policy answers with what
the rules of the registrations resolve to, in their order, by the reference. So it answers with a
retry only up to the length of the chain of the first rule that accepts, a chain of retries that is
given a continuation afterwards answers as if registered with it as its last entry, and no further
registration changes the answer for a failure that some rule accepts. -/
theorem registered_determine (series : List Registration) (e : Failure) (attempt : Nat) :
    (∀ c, (Policy.registered series).determine e attempt = c ↔
      Rule.Resolves (series.map Registration.rule) e attempt c) ∧
    (∀ r, Rule.IsFirst (series.map Registration.rule) e r → r.chain.length < attempt →
      ∀ d, (Policy.registered series).determine e attempt ≠ .retryLater d) ∧
    (∀ filter delays c more,
      (Policy.registered (series ++ .retriesThen filter delays c :: more)).determine e attempt =
        (Policy.registered
          (series ++ .add filter (delays.map .retryLater ++ [c]) :: more)).determine e attempt) ∧
    (∀ more, (∃ r ∈ series.map Registration.rule, r.filter.accepts e) →
      (Policy.registered (series ++ more)).determine e attempt =
        (Policy.registered series).determine e attempt) := by
  refine ⟨fun c => ?reference, ?behind, ?afterwards, ?further⟩
  case reference => rw [Policy.determine_eq_iff, rules_registered]
  case behind =>
    intro r hfirst hlength d hretry
    have hgives := r.gives_continuationFor attempt
    rw [← determine_registered hfirst, hretry] at hgives
    have hwithin := hgives.le_length_of_retryLater
    omega
  case afterwards =>
    intro filter delays c more
    have hrules : (series ++ .retriesThen filter delays c :: more).map Registration.rule =
        (series ++ .add filter (delays.map .retryLater ++ [c]) :: more).map Registration.rule := by
      simp [Registration.rule]
    rw [registered_congr hrules]
  case further =>
    intro more haccepts
    obtain ⟨first, hfirst⟩ := Rule.exists_isFirst haccepts
    have hfurther : Rule.IsFirst ((series ++ more).map Registration.rule) e first := by
      rw [List.map_append]
      exact hfirst.append _
    rw [determine_registered hfirst, determine_registered hfurther]

/-- A timeout that is retried after one nanosecond and then skipped is one rule with both entries.
On the first attempt the answer is the retry. On the third one the chain is past: the answer is the
skip and no retry, and a stop for everything that is registered behind has no say. -/
theorem registered_determine_past_retries :
    let series := [.retriesThen (.ofCategory .timeout) [⟨1⟩] .skipEvent]
    let late := Failure.plain .timeout "late"
    series.map Registration.rule =
        [⟨.ofCategory .timeout, [.retryLater ⟨1⟩, .skipEvent]⟩] ∧
      (Policy.registered series).determine late 1 = .retryLater ⟨1⟩ ∧
        (Policy.registered series).determine late 3 = .skipEvent ∧
          (∀ d, (Policy.registered series).determine late 3 ≠ .retryLater d) ∧
            (Policy.registered (series ++ [.single .any .stopAllShards])).determine late 3 =
              (Policy.registered series).determine late 3 := by
  intro series late
  let skips : Rule := ⟨.ofCategory .timeout, [.retryLater ⟨1⟩, .skipEvent]⟩
  have hrules : series.map Registration.rule = [skips] := rfl
  have haccepts : skips.filter.accepts late := by decide
  have hfirst : Rule.IsFirst (series.map Registration.rule) late skips :=
    ⟨[], [], hrules, haccepts, by simp⟩
  obtain ⟨hearly, -⟩ := registered_determine series late 1
  obtain ⟨hlate, hbehind, -, hfurther⟩ := registered_determine series late 3
  have hretry : Chain.Gives ([] ++ [.retryLater ⟨1⟩, .skipEvent]) 1 (.retryLater ⟨1⟩) :=
    .entry rfl
  have hskip : Chain.Gives ([.retryLater ⟨1⟩] ++ [.skipEvent]) 3 .skipEvent :=
    .last (by decide) (by simp)
  exact ⟨hrules, (hearly _).mpr (.decided hfirst hretry), (hlate _).mpr (.decided hfirst hskip),
    hbehind skips hfirst (by decide), hfurther _ ⟨skips, by simp [hrules], haccepts⟩⟩

end Tidemark
