/-!
# Texts within texts

`occursIn needle text` tells whether the characters of `needle` stand next to each other
somewhere in `text` (`occursIn_iff`), so what occurs within a text that occurs in another occurs in
that other text (`occursIn_trans`).
-/

namespace Tidemark.Text

/-- The first list is the beginning of one of the tails of the second. -/
def occursInList (needle : List Char) : List Char → Bool
  | [] => needle.isEmpty
  | c :: cs => needle.isPrefixOf (c :: cs) || occursInList needle cs

/-- The first text occurs in the second. -/
def occursIn (needle text : String) : Bool := occursInList needle.toList text.toList

/-- A list is the beginning of a tail exactly if it is an infix. -/
theorem occursInList_iff {needle text : List Char} : occursInList needle text ↔ needle <:+: text := by
  induction text with
  | nil => simp [occursInList]
  | cons c cs ih =>
    rw [occursInList, Bool.or_eq_true, List.isPrefixOf_iff_prefix, ih, List.infix_cons_iff]

/-- A text occurs in another exactly if its characters stand next to each other there. -/
theorem occursIn_iff {needle text : String} :
    occursIn needle text ↔ needle.toList <:+: text.toList := occursInList_iff

/-- Every text occurs in itself. -/
@[simp]
theorem occursIn_self (text : String) : occursIn text text := occursIn_iff.mpr List.infix_rfl

/-- What occurs in a text that occurs in another occurs in that other text. -/
theorem occursIn_trans {a b c : String} (hab : occursIn a b) (hbc : occursIn b c) :
    occursIn a c :=
  occursIn_iff.mpr ((occursIn_iff.mp hab).trans (occursIn_iff.mp hbc))

end Tidemark.Text
