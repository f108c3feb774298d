import Tidemark.Fault
import Tidemark.Text.Blank
import Tidemark.Time.Duration

/-!
# Written durations

The form in which durations stand in a configuration: one or more items, each a decimal number
followed by a unit, such as `1h 30m` or `1.5s`. The items add up.

* White space may stand before a number, between its digits and before its unit. Inside a unit it
  ends the unit, and so does a digit, which starts the next item.
* All arithmetic is done in 64 bits. A text whose numbers do not fit is refused.
* A fraction has to be a whole number of the unit's finest part: nanoseconds for units up to the
  minute, seconds for longer ones.
* The text `0` alone is the zero duration; otherwise every number needs a unit.

The reader goes over the text once, character by character (`Reader.step`).
-/

namespace Tidemark.Duration

/-- The units in which durations are written. -/
inductive TimeUnit where
  | nanosecond | microsecond | millisecond | second | minute
  | hour | day | week | month | year
  deriving DecidableEq, Repr

namespace TimeUnit

/-- The unit of a name. -/
def ofName? (name : String) : Option TimeUnit :=
  if name ∈ ["nanos", "nsec", "ns"] then some .nanosecond
  else if name ∈ ["usec", "us", "µs"] then some .microsecond
  else if name ∈ ["millis", "msec", "ms"] then some .millisecond
  else if name ∈ ["seconds", "second", "secs", "sec", "s"] then some .second
  else if name ∈ ["minutes", "minute", "min", "mins", "m"] then some .minute
  else if name ∈ ["hours", "hour", "hrs", "hr", "h"] then some .hour
  else if name ∈ ["days", "day", "d"] then some .day
  else if name ∈ ["weeks", "week", "wks", "wk", "w"] then some .week
  else if name ∈ ["months", "month", "M"] then some .month
  else if name ∈ ["years", "year", "yrs", "yr", "y"] then some .year
  else none

/-- The finest part of a unit that its fractions may denote. -/
inductive Grain where
  | second | nanosecond
  deriving DecidableEq, Repr

/-- What one whole unit is, and in which grain. -/
def whole : TimeUnit → Nat × Grain
  | nanosecond => (1, .nanosecond)
  | microsecond => (1000, .nanosecond)
  | millisecond => (1000000, .nanosecond)
  | second => (1, .second)
  | minute => (60, .second)
  | hour => (3600, .second)
  | day => (86400, .second)
  | week => (604800, .second)
  | month => (2630016, .second)
  | year => (31557600, .second)

/-- What a fraction of the unit is a fraction of; a nanosecond has no fractions. -/
def fraction? : TimeUnit → Option (Nat × Grain)
  | nanosecond => none
  | second => some (1000000000, .nanosecond)
  | minute => some (60000000000, .nanosecond)
  | unit => some unit.whole

end TimeUnit

/-- Why a text does not denote a duration. -/
inductive Refusal where
  /-- The text is not of the form, or its numbers do not fit. -/
  | unreadable
  /-- The sum of the items is too long for a duration. -/
  | crash (cause : Crash)
  deriving DecidableEq, Repr

namespace Reader

/-- A number, if it fits into 64 bits. -/
def fit (n : Nat) : Except Refusal Nat :=
  if n < 0x10000000000000000 then .ok n else .error .unreadable

/-- A decimal fraction in the making. -/
structure Fraction where
  numerator : Nat
  denominator : Nat
  deriving DecidableEq, Repr

/-- Where in an item the reader stands. -/
inductive Stage where
  /-- Before the first digit of a number. -/
  | seeking
  /-- In the whole part of a number. -/
  | whole (n : Nat)
  /-- Behind the point of a number. -/
  | fraction (n : Nat) (f : Fraction)
  /-- In the unit, whose letters are kept in reverse. -/
  | unit (n : Nat) (f : Option Fraction) (letters : List Char)
  deriving DecidableEq, Repr

/-- The state of the reader: what the finished items add up to, and the stage of the next one. -/
structure State where
  total : Duration
  started : Bool
  stage : Stage
  deriving DecidableEq, Repr

/-- The characters of which units are made. -/
def isUnitLetter (c : Char) : Bool :=
  ('a' ≤ c && c ≤ 'z') || ('A' ≤ c && c ≤ 'Z') || c == 'µ'

/-- Adds an amount of one grain to a duration. Nanoseconds are carried only beyond a full second;
a full second is left to the final sum, which must not become too long. -/
def add (total : Duration) : Nat × TimeUnit.Grain → Except Refusal Duration
  | (amount, grain) => do
    let nanos ← fit (total.nanos + (if grain = .nanosecond then amount else 0))
    let extra := if second < nanos then nanos / second else 0
    let nanos := if second < nanos then nanos % second else nanos
    let seconds ← fit ((if grain = .second then amount else 0) + extra)
    let seconds ← fit (total.seconds + seconds)
    let sum := ofParts seconds nanos
    if sum.seconds < secondsLimit then .ok sum else .error (.crash .durationOverflow)

/-- Adds a finished item to the total. -/
def finish (total : Duration) (n : Nat) (f : Option Fraction) (letters : List Char) :
    Except Refusal Duration := do
  match TimeUnit.ofName? (String.ofList letters.reverse) with
  | none => .error .unreadable
  | some unit =>
    let (scale, grain) := unit.whole
    let amount ← fit (n * scale)
    let total ← add total (amount, grain)
    match f with
    | none => .ok total
    | some f =>
      match unit.fraction? with
      | none => .error .unreadable
      | some (scale, grain) =>
        let scaled ← fit (f.numerator * scale)
        if scaled % f.denominator = 0 then add total (scaled / f.denominator, grain)
        else .error .unreadable

/-- Reads one character. -/
def step (s : State) (c : Char) : Except Refusal State :=
  match s.stage with
  | .seeking =>
    match Text.digit? c with
    | some d => .ok { s with started := true, stage := .whole d }
    | none => if Text.isBlank c then .ok s else .error .unreadable
  | .whole n =>
    match Text.digit? c with
    | some d => do
      let n ← fit (n * 10)
      let n ← fit (n + d)
      .ok { s with stage := .whole n }
    | none =>
      if Text.isBlank c then .ok s
      else if isUnitLetter c then .ok { s with stage := .unit n none [c] }
      else if c = '.' then .ok { s with stage := .fraction n ⟨0, 1⟩ }
      else .error .unreadable
  | .fraction n f =>
    match Text.digit? c with
    | some d => do
      let denominator ← fit (f.denominator * 10)
      let numerator ← fit (f.numerator * 10 + d)
      .ok { s with stage := .fraction n ⟨numerator, denominator⟩ }
    | none =>
      if Text.isBlank c then .ok s
      else if isUnitLetter c ∧ f.denominator ≠ 1 then .ok { s with stage := .unit n (some f) [c] }
      else .error .unreadable
  | .unit n f letters =>
    match Text.digit? c with
    | some d => do
      let total ← finish s.total n f letters
      .ok { s with total, stage := .whole d }
    | none =>
      if Text.isBlank c then do
        let total ← finish s.total n f letters
        .ok { s with total, stage := .seeking }
      else if isUnitLetter c then .ok { s with stage := .unit n f (c :: letters) }
      else .error .unreadable

/-- What the text read so far denotes, if it ends here. -/
def close (s : State) : Except Refusal Duration :=
  match s.stage with
  | .seeking => if s.started then .ok s.total else .error .unreadable
  | .whole _ => .error .unreadable
  | .fraction _ _ => .error .unreadable
  | .unit n f letters => finish s.total n f letters

end Reader

/-- The duration that a text denotes. -/
def read (text : String) : Except Refusal Duration :=
  if text = "0" then .ok zero
  else do
    let state ← text.toList.foldlM Reader.step ⟨zero, false, .seeking⟩
    Reader.close state

/-- The duration that a text denotes, or `fallback` if it denotes none. -/
def readOr (text : String) (fallback : Duration) : Except Crash Duration :=
  match read text with
  | .ok d => .ok d
  | .error .unreadable => .ok fallback
  | .error (.crash cause) => .error cause

end Tidemark.Duration
