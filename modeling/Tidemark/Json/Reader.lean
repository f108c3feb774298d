import Tidemark.Json.Value
import Tidemark.Text.Hex

/-!
# Reading JSON

`Value.read` accepts the texts of the JSON grammar, at any depth of nesting. It keeps what a form
may have to refuse: repeated names, numbers that are no integers of 64 bits, and strings with
unpaired surrogates.

The reader descends along the grammar. Each call consumes at least one character before it calls
itself, so the length of the text bounds the depth of the calls.
-/

namespace Tidemark.Json

/-- The text without leading white space. -/
def skipSpace (cs : List Char) : List Char :=
  cs.dropWhile fun c => c == ' ' || c == '\n' || c == '\t' || c == '\r'

/-! ## Strings -/

/-- A piece of a quoted string: a character, or the number that an escape gives. -/
inductive Piece where
  | char (c : Char)
  | code (unit : Nat)
  deriving DecidableEq, Repr

/-- The character that a letter behind a backslash stands for. -/
def escaped? (c : Char) : Option Char :=
  if c = '"' ∨ c = '\\' ∨ c = '/' then some c
  else if c = 'b' then some '\x08'
  else if c = 'f' then some '\x0c'
  else if c = 'n' then some '\n'
  else if c = 'r' then some '\r'
  else if c = 't' then some '\t'
  else none

/-- The pieces of a string whose opening quote has been read, and the text behind it. -/
def readPieces : List Char → Option (List Piece × List Char)
  | [] => none
  | '"' :: rest => some ([], rest)
  | '\\' :: 'u' :: a :: b :: c :: d :: rest => do
    let a ← Text.hexValue? a
    let b ← Text.hexValue? b
    let c ← Text.hexValue? c
    let d ← Text.hexValue? d
    let (pieces, rest) ← readPieces rest
    some (.code (((a * 16 + b) * 16 + c) * 16 + d) :: pieces, rest)
  | '\\' :: c :: rest => do
    let c ← escaped? c
    let (pieces, rest) ← readPieces rest
    some (.char c :: pieces, rest)
  | c :: rest =>
    if c.toNat < 0x20 ∨ c = '\\' then none
    else do
      let (pieces, rest) ← readPieces rest
      some (.char c :: pieces, rest)

/-- The number is the first half of a surrogate pair. -/
def isLead (u : Nat) : Bool := 0xD800 ≤ u && u < 0xDC00

/-- The number is the second half of a surrogate pair. -/
def isTrail (u : Nat) : Bool := 0xDC00 ≤ u && u < 0xE000

/-- The characters that the pieces of a string denote. -/
def joinPieces : List Piece → Option (List Char)
  | [] => some []
  | .char c :: rest => (joinPieces rest).map (c :: ·)
  | .code u :: .code v :: rest =>
    if isLead u && isTrail v then
      (joinPieces rest).map (Char.ofNat (0x10000 + (u - 0xD800) * 0x400 + (v - 0xDC00)) :: ·)
    else if isLead u || isTrail u then none
    else (joinPieces (.code v :: rest)).map (Char.ofNat u :: ·)
  | .code u :: rest =>
    if isLead u || isTrail u then none else (joinPieces rest).map (Char.ofNat u :: ·)

/-- A string whose opening quote has been read. -/
def readString (cs : List Char) : Option (Option String × List Char) :=
  (readPieces cs).map fun (pieces, rest) => ((joinPieces pieces).map String.ofList, rest)

/-! ## Numbers -/

/-- At least one digit, and the text behind the digits. -/
def readDigits (cs : List Char) : Option (List Nat × List Char) :=
  match Text.takeDigits cs.length cs with
  | ([], _) => none
  | found => some found

/-- The whole part of a number: a zero alone, or digits that do not start with a zero. -/
def readWhole (cs : List Char) : Option (Nat × List Char) := do
  let (ds, rest) ← readDigits cs
  if ds.head? = some 0 ∧ ds.length ≠ 1 then none else some (Text.ofDigits ds, rest)

/-- A fraction, if there is one: whether there was, and the text behind it. -/
def readFraction (cs : List Char) : Option (Bool × List Char) :=
  match cs with
  | '.' :: rest => (readDigits rest).map fun (_, rest) => (true, rest)
  | rest => some (false, rest)

/-- An exponent, if there is one: whether there was, and the text behind it. -/
def readExponent (cs : List Char) : Option (Bool × List Char) :=
  match cs with
  | 'e' :: rest | 'E' :: rest =>
    let rest := match rest with
      | '+' :: rest | '-' :: rest => rest
      | rest => rest
    (readDigits rest).map fun (_, rest) => (true, rest)
  | rest => some (false, rest)

/-- The value of a number without fraction and exponent. Minus zero is no integer. -/
def integerValue (negative : Bool) (n : Nat) : Value :=
  if negative then if n = 0 ∨ 0x8000000000000000 < n then .real else .integer (-(n : Int))
  else if n < 0x10000000000000000 then .integer n else .real

/-- A number. -/
def readNumber (cs : List Char) : Option (Value × List Char) := do
  let (negative, cs) := match cs with
    | '-' :: rest => (true, rest)
    | rest => (false, rest)
  let (whole, cs) ← readWhole cs
  let (hasFraction, cs) ← readFraction cs
  let (hasExponent, cs) ← readExponent cs
  some (if hasFraction || hasExponent then .real else integerValue negative whole, cs)

/-! ## Values -/

mutual

/-- A value, with white space in front of it. -/
def readValue : Nat → List Char → Option (Value × List Char)
  | 0, _ => none
  | depth + 1, cs =>
    match skipSpace cs with
    | 'n' :: 'u' :: 'l' :: 'l' :: rest => some (.null, rest)
    | 't' :: 'r' :: 'u' :: 'e' :: rest => some (.bool true, rest)
    | 'f' :: 'a' :: 'l' :: 's' :: 'e' :: rest => some (.bool false, rest)
    | '"' :: rest => (readString rest).map fun (s, rest) => (.string s, rest)
    | '[' :: rest =>
      match skipSpace rest with
      | ']' :: rest => some (.array [], rest)
      | rest => (readItems depth rest).map fun (items, rest) => (.array items, rest)
    | '{' :: rest =>
      match skipSpace rest with
      | '}' :: rest => some (.object [], rest)
      | rest => (readMembers depth rest).map fun (members, rest) => (.object members, rest)
    | rest => readNumber rest

/-- The items of an array that is not empty, up to its closing bracket. -/
def readItems : Nat → List Char → Option (List Value × List Char)
  | 0, _ => none
  | depth + 1, cs => do
    let (item, rest) ← readValue depth cs
    match skipSpace rest with
    | ',' :: rest => do
      let (items, rest) ← readItems depth rest
      some (item :: items, rest)
    | ']' :: rest => some ([item], rest)
    | _ => none

/-- The members of an object that is not empty, up to its closing brace. -/
def readMembers : Nat → List Char → Option (List (Option String × Value) × List Char)
  | 0, _ => none
  | depth + 1, cs =>
    match skipSpace cs with
    | '"' :: rest => do
      let (name, rest) ← readString rest
      match skipSpace rest with
      | ':' :: rest => do
        let (value, rest) ← readValue depth rest
        match skipSpace rest with
        | ',' :: rest => do
          let (members, rest) ← readMembers depth rest
          some ((name, value) :: members, rest)
        | '}' :: rest => some ([(name, value)], rest)
        | _ => none
      | _ => none
    | _ => none

end

/-- The value that a text denotes. -/
def Value.read (text : String) : Option Value := do
  let cs := text.toList
  let (value, rest) ← readValue (cs.length + 1) cs
  if (skipSpace rest).isEmpty then some value else none

end Tidemark.Json
