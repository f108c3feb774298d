import Tidemark.Policy.Continuation
import Tidemark.Policy.Filter

/-!
# Rules for failures

A policy is a list of rules. The first rule whose filter accepts a failure decides what happens,
by the number of the attempt: the first attempt takes the first continuation of the rule, the
second the second, and so on; behind the end the last continuation serves for all further
attempts, unless it is a retry. Whatever is left undecided stops the shard.
-/

namespace Tidemark

/-- A filter and the continuations for the successive attempts. -/
structure Rule where
  filter : Filter
  chain : List Continuation
  deriving Inhabited

namespace Rule

/-- The continuation behind the end of a chain. -/
def afterEnd (chain : List Continuation) : Continuation :=
  match chain.getLast? with
  | none | some (.retryLater _) => .stopShard
  | some c => c

/-- The continuation for an attempt, counted from one. -/
def continuationFor (r : Rule) (attempt : Nat) : Continuation :=
  (r.chain[max attempt 1 - 1]?).getD (afterEnd r.chain)

end Rule

/-- Rules in the order of their registration. -/
structure Policy where
  rules : List Rule := []
  deriving Inhabited

namespace Policy

/-- Appends a rule. -/
def add (p : Policy) (filter : Filter) (chain : List Continuation) : Policy :=
  ⟨p.rules ++ [⟨filter, chain⟩]⟩

/-- Appends a rule with a single continuation. -/
def addSingle (p : Policy) (filter : Filter) (c : Continuation) : Policy := p.add filter [c]

/-- Appends a rule that retries after each of the delays in turn. -/
def addRetries (p : Policy) (filter : Filter) (delays : List Duration) : Policy :=
  p.add filter (delays.map .retryLater)

/-- Appends a continuation to the rule that was added last. -/
def thenLast (p : Policy) (c : Continuation) : Policy :=
  match p.rules.getLast? with
  | none => p
  | some r => ⟨p.rules.dropLast ++ [{ r with chain := r.chain ++ [c] }]⟩

/-- The continuation for a failure on an attempt, counted from one. -/
def determine (p : Policy) (e : Failure) (attempt : Nat) : Continuation :=
  match p.rules.find? (·.filter.accepts e) with
  | some r => r.continuationFor attempt
  | none => .stopShard

end Policy

end Tidemark
