/-!
# Decimal digits

Reading and writing of unsigned decimal numbers in ASCII digits.
-/

namespace Tidemark.Text

/-- The value of an ASCII digit. -/
def digit? (c : Char) : Option Nat :=
  if '0' ≤ c ∧ c ≤ '9' then some (c.toNat - '0'.toNat) else none

/-- The number that a list of digits denotes, most significant digit first. -/
def ofDigits (ds : List Nat) : Nat := ds.foldl (fun n d => 10 * n + d) 0

/-- The digits of `n` in decimal, padded with zeros on the left to at least `width`. -/
def padded (width n : Nat) : String :=
  let digits := Nat.toDigits 10 n
  String.ofList (List.replicate (width - digits.length) '0' ++ digits)

/-- The text without its zeros at the right end. -/
def dropTrailingZeros (cs : List Char) : List Char :=
  (cs.reverse.dropWhile (· == '0')).reverse

/-- Takes at most `limit` digits off the front of a text, and says what is left. -/
def takeDigits : Nat → List Char → List Nat × List Char
  | 0, cs => ([], cs)
  | _, [] => ([], [])
  | n + 1, c :: cs =>
    match digit? c with
    | some d => let (ds, rest) := takeDigits n cs; (d :: ds, rest)
    | none => ([], c :: cs)

end Tidemark.Text
