/-!
# JSON values

A JSON document as it is written: members of an object keep their order and may repeat a name,
and a number is either an integer of 64 bits or merely `real`, since no form of this library has
fractional numbers. A string is `none` if its escapes name an unpaired surrogate, so that it has
no text.

`Value.write` gives the shortest text of a value.
-/

namespace Tidemark.Json

/-- A JSON value. -/
inductive Value where
  | null
  | bool (b : Bool)
  /-- An integer written without fraction and exponent that fits into 64 bits, signed or not. -/
  | integer (n : Int)
  /-- Any other number. -/
  | real
  | string (text : Option String)
  | array (items : List Value)
  | object (members : List (Option String × Value))
  deriving Repr, Inhabited

namespace Value

/-- A string value. -/
def text (s : String) : Value := .string (some s)

/-- A natural number as a value. -/
def nat (n : Nat) : Value := .integer n

/-- An object with the given members. -/
def record (members : List (String × Value)) : Value :=
  .object (members.map fun (name, value) => (some name, value))

/-- A value that may be missing. -/
def option {α : Type} (f : α → Value) : Option α → Value
  | some a => f a
  | none => .null

/-! ## Writing -/

/-- A hexadecimal digit. -/
def hexDigit (n : Nat) : Char := Nat.digitChar n

/-- A character inside of a quoted string. -/
def escape (c : Char) : List Char :=
  if c = '"' then ['\\', '"']
  else if c = '\\' then ['\\', '\\']
  else if c = '\n' then ['\\', 'n']
  else if c = '\r' then ['\\', 'r']
  else if c = '\t' then ['\\', 't']
  else if c.toNat < 0x20 then
    ['\\', 'u', '0', '0', hexDigit (c.toNat / 16), hexDigit (c.toNat % 16)]
  else [c]

/-- A quoted string. -/
def quote (s : String) : String :=
  "\"" ++ String.ofList (s.toList.flatMap escape) ++ "\""

mutual

/-- The shortest text of a value. -/
def write : Value → String
  | .null => "null"
  | .bool true => "true"
  | .bool false => "false"
  | .integer n => toString n
  | .real => "0.5"
  | .string s => quote (s.getD "")
  | .array items => "[" ++ writeItems items ++ "]"
  | .object members => "\x7b" ++ writeMembers members ++ "\x7d"

/-- The items of an array, separated by commas. -/
def writeItems : List Value → String
  | [] => ""
  | [v] => write v
  | v :: vs => write v ++ "," ++ writeItems vs

/-- The members of an object, separated by commas. -/
def writeMembers : List (Option String × Value) → String
  | [] => ""
  | [(name, v)] => quote (name.getD "") ++ ":" ++ write v
  | (name, v) :: ms => quote (name.getD "") ++ ":" ++ write v ++ "," ++ writeMembers ms

end

end Value

end Tidemark.Json
