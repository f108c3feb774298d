import Tidemark.Text.Digits

/-!
# Durations

A span of time, counted in nanoseconds. `Duration.text` is the short form in which a duration
appears in messages: the exact value in the largest of the units `s`, `ms`, `µs` and `ns` in which
it has a whole part.
-/

namespace Tidemark

/-- A span of time that is not negative. -/
structure Duration where
  /-- The length in nanoseconds. -/
  inNanos : Nat
  deriving DecidableEq, Repr, Inhabited

namespace Duration

/-- Nanoseconds in a second. -/
def second : Nat := 1000000000

/-- Nanoseconds in a millisecond. -/
def millisecond : Nat := 1000000

/-- The duration of no length. -/
def zero : Duration := ⟨0⟩

/-- A duration of whole seconds and nanoseconds on top. -/
def ofParts (seconds nanos : Nat) : Duration := ⟨seconds * second + nanos⟩

/-- A duration of whole seconds. -/
def ofSeconds (n : Nat) : Duration := ⟨n * second⟩

/-- A duration of whole milliseconds. -/
def ofMillis (n : Nat) : Duration := ⟨n * millisecond⟩

/-- The whole seconds of a duration. -/
def seconds (d : Duration) : Nat := d.inNanos / second

/-- The nanoseconds of a duration beyond its whole seconds. -/
def nanos (d : Duration) : Nat := d.inNanos % second

/-- The first number of seconds that no duration has. -/
def secondsLimit : Nat := 0x10000000000000000

/-- `whole` and the fraction `part / scale` in decimal, without needless zeros. -/
def decimal (whole part scale : Nat) (digits : Nat) : String :=
  let fraction := Text.dropTrailingZeros (Text.padded digits (part % scale)).toList
  if fraction.isEmpty then toString whole
  else toString whole ++ "." ++ String.ofList fraction

/-- The short form of a duration in messages. -/
def text (d : Duration) : String :=
  if 0 < d.seconds then decimal d.seconds d.nanos second 9 ++ "s"
  else if millisecond ≤ d.nanos then
    decimal (d.nanos / millisecond) (d.nanos % millisecond) millisecond 6 ++ "ms"
  else if 1000 ≤ d.nanos then decimal (d.nanos / 1000) (d.nanos % 1000) 1000 3 ++ "µs"
  else toString d.nanos ++ "ns"

end Duration

end Tidemark
