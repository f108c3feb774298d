import Tidemark.Text.Digits

/-!
# Hexadecimal text

Bytes written as pairs of hexadecimal digits, lower case.
-/

namespace Tidemark.Text

/-- The value of a hexadecimal digit of either case. -/
def hexValue? (c : Char) : Option Nat :=
  if '0' ≤ c ∧ c ≤ '9' then some (c.toNat - '0'.toNat)
  else if 'a' ≤ c ∧ c ≤ 'f' then some (c.toNat - 'a'.toNat + 10)
  else if 'A' ≤ c ∧ c ≤ 'F' then some (c.toNat - 'A'.toNat + 10)
  else none

/-- The two digits of a byte. -/
def hexPair (b : UInt8) : List Char :=
  [Nat.digitChar (b.toNat / 16), Nat.digitChar (b.toNat % 16)]

/-- Bytes as hexadecimal text. -/
def toHex (bytes : List UInt8) : String := String.ofList (bytes.flatMap hexPair)

/-- The bytes that pairs of hexadecimal digits denote. -/
def ofHexDigits? : List Char → Option (List UInt8)
  | [] => some []
  | a :: b :: rest => do
    let a ← hexValue? a
    let b ← hexValue? b
    let bytes ← ofHexDigits? rest
    some (UInt8.ofNat (a * 16 + b) :: bytes)
  | _ => none

/-- The bytes that a hexadecimal text denotes. -/
def ofHex? (text : String) : Option (List UInt8) := ofHexDigits? text.toList

end Tidemark.Text
