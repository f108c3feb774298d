/-!
# Watched values

A value that is replaced from time to time, with a count of its replacements. A watcher remembers
the count at which it looked last, and so can tell whether there is something new, whatever the
value is.
-/

namespace Tidemark

/-- A value with the number of its replacements. -/
structure Watched (α : Type) where
  value : α
  version : Nat := 0
  deriving Repr, Inhabited

/-- Replaces the value. -/
def Watched.put {α : Type} (w : Watched α) (value : α) : Watched α := ⟨value, w.version + 1⟩

/-- The value was replaced since the version was seen. -/
def Watched.isNew {α : Type} (w : Watched α) (seen : Nat) : Bool := seen != w.version

end Tidemark
