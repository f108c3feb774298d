import Tidemark.Text.Blank
import Tidemark.Text.Digits
import Tidemark.Time.Timestamp

/-!
# Timestamps in text

Timestamps are written in UTC in the form of RFC 3339, with no fraction or one of 3, 6 or 9
digits, the fewest that are exact. They are read from a wider form: white space may stand around
the separators, a field may have one digit, the date and the time may be separated by a blank, a
year beyond four digits carries a sign, and the zone may be any offset below a day.
-/

namespace Tidemark.Rfc3339

/-! ## Writing -/

/-- A year: four digits, or a sign and at least four digits outside of 0 to 9999. -/
def yearText (year : Int) : String :=
  if 0 ≤ year ∧ year ≤ 9999 then Text.padded 4 year.toNat
  else (if year < 0 then "-" else "+") ++ Text.padded 4 year.natAbs

/-- The fraction of a second, with the fewest digits of 0, 3, 6 and 9. -/
def fractionText (nanos : Nat) : String :=
  if nanos = 0 then ""
  else if nanos % 1000000 = 0 then "." ++ Text.padded 3 (nanos / 1000000)
  else if nanos % 1000 = 0 then "." ++ Text.padded 6 (nanos / 1000)
  else "." ++ Text.padded 9 nanos

/-- The text of a timestamp. -/
def write (t : Timestamp) : String :=
  let nanos := if t.leap then t.nanos - Duration.second else t.nanos
  let days := nanos / Timestamp.day
  let ofDay := (nanos - days * Timestamp.day).toNat
  let date := Calendar.Date.ofDays days
  let seconds := ofDay / Duration.second
  let second := seconds % 60 + (if t.leap then 1 else 0)
  yearText date.year ++ "-" ++ Text.padded 2 date.month ++ "-" ++ Text.padded 2 date.day ++ "T"
    ++ Text.padded 2 (seconds / 3600) ++ ":" ++ Text.padded 2 (seconds / 60 % 60) ++ ":"
    ++ Text.padded 2 second ++ fractionText (ofDay % Duration.second) ++ "Z"

/-! ## Reading -/

/-- A number of at least one and at most `limit` digits, after blanks. -/
def number (limit : Nat) (cs : List Char) : Option (Nat × List Char) :=
  match Text.takeDigits limit (Text.skipBlanks cs) with
  | ([], _) => none
  | (ds, rest) => some (Text.ofDigits ds, rest)

/-- The character `c`, after blanks. -/
def literal (c : Char) (cs : List Char) : Option (List Char) :=
  match Text.skipBlanks cs with
  | d :: rest => if d = c then some rest else none
  | [] => none

/-- A year: up to four digits, or any number of them behind a sign. -/
def year (cs : List Char) : Option (Int × List Char) :=
  match Text.skipBlanks cs with
  | '-' :: rest => do
    let (n, rest) ← unsigned rest
    some (-(n : Int), rest)
  | '+' :: rest => do
    let (n, rest) ← unsigned rest
    some ((n : Int), rest)
  | rest => do
    let (n, rest) ← number 4 rest
    some ((n : Int), rest)
where
  /-- Any number of digits. -/
  unsigned (cs : List Char) : Option (Nat × List Char) :=
    match Text.takeDigits cs.length cs with
    | ([], _) => none
    | (ds, rest) => some (Text.ofDigits ds, rest)

/-- The fraction of a second in nanoseconds; digits beyond the ninth are dropped. -/
def fraction (cs : List Char) : Option (Nat × List Char) :=
  match cs with
  | '.' :: rest =>
    match Text.takeDigits 9 rest with
    | ([], _) => none
    | (ds, rest) =>
      some (Text.ofDigits ds * Nat.pow 10 (9 - ds.length),
        rest.dropWhile fun c => (Text.digit? c).isSome)
  | rest => some (0, rest)

/-- Two digits. -/
def pair (cs : List Char) : Option (Nat × Nat × List Char) :=
  match cs with
  | a :: b :: rest => do
    let a ← Text.digit? a
    let b ← Text.digit? b
    some (a, b, rest)
  | _ => none

/-- The offset of a zone from UTC in seconds. -/
def zone (cs : List Char) : Option (Int × List Char) :=
  match cs with
  | 'Z' :: rest | 'z' :: rest => some (0, rest)
  | sign :: rest => do
    if ((sign :: rest).take 3).map Char.toLower = ['u', 't', 'c'] then
      some (0, rest.drop 2)
    else
      let negative ←
        if sign = '+' then some false
        else if sign = '-' ∨ sign = '−' then some true
        else none
      let (h, h', rest) ← pair rest
      let (m, m', rest) ← pair (rest.dropWhile fun c => c == ':' || Text.isBlank c)
      if 6 ≤ m then none
      else
        let offset : Int := (10 * h + h') * 3600 + (10 * m + m') * 60
        some (if negative then -offset else offset, rest)
  | [] => none

/-- The timestamp that a text denotes. -/
def read (text : String) : Option Timestamp := do
  let (year, cs) ← year text.toList
  let cs ← literal '-' cs
  let (month, cs) ← number 2 cs
  let cs ← literal '-' cs
  let (day, cs) ← number 2 cs
  let cs ← match cs with
    | 'T' :: cs | 't' :: cs | ' ' :: cs => some cs
    | _ => none
  let (hour, cs) ← number 2 cs
  let cs ← literal ':' cs
  let (minute, cs) ← number 2 cs
  let cs ← literal ':' cs
  let (second, cs) ← number 2 cs
  let (nanos, cs) ← fraction cs
  let (offset, cs) ← zone (Text.skipBlanks cs)
  let date : Calendar.Date := ⟨year, month, day⟩
  let inRange (year : Int) : Bool := Calendar.firstYear ≤ year && year ≤ Calendar.lastYear
  if !(Text.skipBlanks cs).isEmpty || !date.isValid || !inRange year then none
  else if 24 ≤ hour || 60 ≤ minute || 61 ≤ second || 86400 ≤ offset || offset ≤ -86400 then none
  else
    let ofDay : Int := hour * 3600 + minute * 60 + second
    let seconds := date.toDays * 86400 + ofDay - offset
    let total := seconds * Duration.second + nanos
    if total < Timestamp.first.nanos || Timestamp.last.nanos < total then none
    else some ⟨total, second == 60⟩

end Tidemark.Rfc3339
