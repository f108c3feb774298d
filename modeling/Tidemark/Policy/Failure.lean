/-!
# Failures of shards

A failure has a category and a message, and may enclose the failure that caused it.
-/

namespace Tidemark

/-- The category of a failure. -/
inductive Category where
  /-- A projection failed while it applied an event. -/
  | applyEvent
  /-- Overflow, division by zero and the like. -/
  | arithmetic
  /-- An event could not be decoded. -/
  | deserialization
  /-- Events could not be loaded. -/
  | eventFetch
  /-- Progress could not be recorded. -/
  | progressUpdate
  /-- Something took too long. -/
  | timeout
  /-- A category of the application's own. -/
  | custom (name : String)
  deriving DecidableEq, Repr, Inhabited

/-- The name of a category. -/
def Category.text : Category → String
  | .applyEvent => "ApplyEvent"
  | .arithmetic => "Arithmetic"
  | .deserialization => "Deserialization"
  | .eventFetch => "EventFetch"
  | .progressUpdate => "ProgressUpdate"
  | .timeout => "Timeout"
  | .custom name => name

/-- A failure of a shard. -/
inductive Failure where
  | mk (category : Category) (message : String) (inner : Option Failure)
  deriving Repr, Inhabited

namespace Failure

/-- A failure that encloses none. -/
def plain (category : Category) (message : String) : Failure := ⟨category, message, none⟩

/-- The category of a failure. -/
def category : Failure → Category
  | ⟨c, _, _⟩ => c

/-- The message of a failure. -/
def message : Failure → String
  | ⟨_, m, _⟩ => m

/-- The failure that caused a failure, if there is one. -/
def inner : Failure → Option Failure
  | ⟨_, _, i⟩ => i

/-- The category of the directly enclosed failure. -/
def innerCategory (f : Failure) : Option Category := f.inner.map category

/-- Encloses `cause` in a failure to apply an event. -/
def apply (cause : Failure) : Failure :=
  ⟨.applyEvent, "apply failed: " ++ cause.message, some cause⟩

/-- The failure as one about applying an event, which encloses it if it is of another category. -/
def asApply (f : Failure) : Failure := if f.category = .applyEvent then f else apply f

/-- The form of a failure in messages, without what it encloses. -/
def text (f : Failure) : String := f.category.text ++ ": " ++ f.message

/-- The texts of a failure and of all that it encloses, outermost first. -/
def chain : Failure → List String
  | ⟨c, m, none⟩ => [text ⟨c, m, none⟩]
  | ⟨c, m, some i⟩ => text ⟨c, m, some i⟩ :: chain i

end Failure

end Tidemark
