import Tidemark.Time.Duration

/-!
# Measurements as binary floating point numbers

A gauge shows the number of 53 significant bits that is nearest to what was measured, and of two
that are equally near the even one. A time is shown as a number of seconds.
-/

namespace Tidemark.Metrics

/-- The multiple of `2 ^ e` that is nearest to `n`, and of two the even multiple. -/
def roundBits (e n : Nat) : Nat :=
  let unit := Nat.pow 2 e
  let quotient := n / unit
  let rest := 2 * (n % unit)
  if rest < unit ∨ (rest = unit ∧ quotient % 2 = 0) then quotient * unit
  else (quotient + 1) * unit

/-- The number of 53 significant bits that is nearest to `n`. -/
def nearestNat (n : Nat) : Nat := roundBits (n.log2 - 52) n

/-- The number of 53 significant bits that is nearest to `n`. -/
def nearest (n : Int) : Int := if n < 0 then -(nearestNat n.natAbs : Int) else nearestNat n.natAbs

/-- A duration as a number of seconds. -/
def seconds (d : Duration) : Float :=
  d.seconds.toUInt64.toFloat + d.nanos.toUInt64.toFloat / 1000000000

/-- The bits of a number as 16 hexadecimal digits. -/
def bitsText (x : Float) : String :=
  let digits := Nat.toDigits 16 x.toBits.toNat
  String.ofList (List.replicate (16 - digits.length) '0' ++ digits)

end Tidemark.Metrics
