import Tidemark.Policy.Failure
import Tidemark.Text.Infix
import Tidemark.Text.Quoted

/-!
# Filters of failures

A filter describes the failures that a rule is about. It is a conjunction: a failure matches if
it meets every condition that the filter holds, and a filter without conditions matches every
failure. There is at most one condition on the category, one on the category of the directly
enclosed failure and one on a text within the message, and any number of further predicates.
-/

namespace Tidemark

/-- A condition on failures, as a conjunction of optional parts. -/
structure Filter where
  category : Option Category := none
  innerCategory : Option Category := none
  needle : Option String := none
  predicates : List (Failure → Bool) := []
  deriving Inhabited

namespace Filter

/-- Matches every failure. -/
def any : Filter := {}

/-- Matches the failures of a category. -/
def ofCategory (c : Category) : Filter := { category := some c }

/-- Asks for the category of the directly enclosed failure. -/
def andInner (f : Filter) (c : Category) : Filter := { f with innerCategory := some c }

/-- Asks for a text within the message. -/
def andMessageContains (f : Filter) (needle : String) : Filter := { f with needle := some needle }

/-- Asks for a predicate to hold. -/
def andMatching (f : Filter) (p : Failure → Bool) : Filter :=
  { f with predicates := f.predicates ++ [p] }

/-- The failure meets every condition of the filter. -/
def accepts (f : Filter) (e : Failure) : Bool :=
  f.category.all (e.category == ·) &&
    f.innerCategory.all (e.innerCategory == some ·) &&
    f.needle.all (Text.occursIn · e.message) &&
    f.predicates.all (· e)

/-! ## The text of a filter -/

/-- A category as it stands in the text of a filter. -/
def categoryText : Category → String
  | .custom name => "Custom(" ++ Text.quoted name ++ ")"
  | c => c.text

/-- An optional part as it stands in the text of a filter. -/
def partText : Option String → String
  | some s => "Some(" ++ s ++ ")"
  | none => "None"

/-- Shows the conditions of a filter; of the predicates, only how many there are. -/
def text (f : Filter) : String :=
  "FailureFilter \x7b category: " ++ partText (f.category.map categoryText)
    ++ ", inner_category: " ++ partText (f.innerCategory.map categoryText)
    ++ ", message_contains: " ++ partText (f.needle.map Text.quoted)
    ++ ", predicates: " ++ toString f.predicates.length ++ " \x7d"

end Filter

end Tidemark
