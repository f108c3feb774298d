import Tidemark.Fault

/-!
# Positions

An event log numbers its events with 64-bit positions. The numbers are kept as integers, and the
two operations of the library that can leave the 64-bit range, `next` and `distance`, say so.
-/

namespace Tidemark

/-- A place in the sequence of an event log. -/
abbrev Position := Int

namespace Position

/-- The last position that can be represented. -/
def last : Position := 0x7FFFFFFFFFFFFFFF

/-- The first position that can be represented. -/
def first : Position := -0x8000000000000000

/-- A position fits into 64 bits. -/
def Fits (p : Position) : Prop := first ≤ p ∧ p ≤ last

instance (p : Position) : Decidable p.Fits := inferInstanceAs (Decidable (_ ∧ _))

/-- The position after `p`. -/
def next (p : Position) : Except Crash Position :=
  if (p + 1).Fits then .ok (p + 1) else .error .addOverflow

/-- How far `p` lies above `q`. -/
def distance (p q : Position) : Except Crash Int :=
  if Fits (p - q) then .ok (p - q) else .error .subtractOverflow

/-- How far `p` lies above `q`, and zero if it lies below. -/
def lead (p q : Position) : Except Crash Int := (distance p q).map (max 0)

end Position

end Tidemark
