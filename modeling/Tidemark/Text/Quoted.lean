import Tidemark.Text.Unprintable

/-!
# Quoted texts

A text in quotation marks, as it is shown in messages: quotation marks, backslashes and
unprintable characters are written as escapes.
-/

namespace Tidemark.Text

/-- The number of a character in hexadecimal, as an escape. -/
def numbered (c : Char) : List Char :=
  ['\\', 'u', '{'] ++ Nat.toDigits 16 c.toNat ++ ['}']

/-- A character as it is shown inside of quotation marks. -/
def shown (c : Char) : List Char :=
  if c = '"' then ['\\', '"']
  else if c = '\\' then ['\\', '\\']
  else if c = '\n' then ['\\', 'n']
  else if c = '\r' then ['\\', 'r']
  else if c = '\t' then ['\\', 't']
  else if c.toNat = 0 then ['\\', '0']
  else if Unprintable.contains c then numbered c
  else [c]

/-- The text in quotation marks. -/
def quoted (s : String) : String := "\"" ++ String.ofList (s.toList.flatMap shown) ++ "\""

end Tidemark.Text
