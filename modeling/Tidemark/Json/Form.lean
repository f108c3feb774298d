import Tidemark.Json.Value

/-!
# Forms

How the records and choices of this library are laid out in JSON.

* A record is an object with a member for each field. Members of other names are ignored; a field
  given twice is refused. A record is also read from an array of its fields in order, which may
  end early only where every missing field has a default.
* A choice is the name of its case, or an object whose only member is named for the case and
  holds its content; a case without content then holds `null`.
* Integers must be written as integers and lie in the range of their field.
-/

namespace Tidemark.Json

/-- Reads a value of one form; `none` if the JSON value is not of the form. -/
abbrev Form (α : Type) := Value → Option α

namespace Form

/-- A truth value. -/
def bool : Form Bool
  | .bool b => some b
  | _ => none

/-- A string. -/
def string : Form String
  | .string text => text
  | _ => none

/-- An integer between two bounds. -/
def integer (low high : Int) : Form Int
  | .integer n => if low ≤ n ∧ n ≤ high then some n else none
  | _ => none

/-- A signed integer of 64 bits. -/
def signed64 : Form Int := integer (-0x8000000000000000) 0x7FFFFFFFFFFFFFFF

/-- An unsigned integer of 32 bits. -/
def unsigned32 : Form Nat := fun v => (integer 0 0xFFFFFFFF v).map Int.toNat

/-- An unsigned integer of 64 bits. -/
def unsigned64 : Form Nat := fun v => (integer 0 0xFFFFFFFFFFFFFFFF v).map Int.toNat

/-- A list. -/
def list {α : Type} (item : Form α) : Form (List α)
  | .array items => items.mapM item
  | _ => none

/-- The case of a choice and its content, which is missing where only the name is given. -/
def choice : Form (String × Option Value)
  | .string (some name) => some (name, none)
  | .object [(some name, content)] => some (name, some content)
  | _ => none

/-- The name of a case without content. -/
def caseName : Form String := fun v =>
  match choice v with
  | some (name, none) | some (name, some .null) => some name
  | _ => none

end Form

/-- The fields of a record that are present. -/
structure Record where
  /-- The record was given as an array. -/
  positional : Bool
  fields : List (String × Value)

namespace Record

/-- The record that a value denotes, with the names of its fields in order. -/
def read (names : List String) : Form Record
  | .array items =>
    if items.length ≤ names.length then some ⟨true, names.zip items⟩ else none
  | .object members =>
    if members.any (·.1.isNone) then none
    else
      let fields : List (String × Value) :=
        members.filterMap fun (name, value) => name.map fun name => (name, value)
      let known := fields.filter fun field => names.contains field.1
      if (known.map Prod.fst).Nodup then some ⟨false, known⟩ else none
  | _ => none

/-- The value of a field, if it is present. -/
def find? (r : Record) (name : String) : Option Value := r.fields.lookup name

/-- A field that has to be present. -/
def required {α : Type} (r : Record) (name : String) (form : Form α) : Option α :=
  (r.find? name).bind form

/-- A field with a default. -/
def defaulted {α : Type} (r : Record) (name : String) (form : Form α) (default : α) : Option α :=
  match r.find? name with
  | none => some default
  | some v => form v

/-- A field that may be `null`, or missing unless the record is an array. -/
def optional {α : Type} (r : Record) (name : String) (form : Form α) : Option (Option α) :=
  match r.find? name with
  | none => if r.positional then none else some none
  | some .null => some none
  | some v => (form v).map some

end Record

end Tidemark.Json
