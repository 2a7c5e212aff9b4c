import Reckoner.Lexeme.Basic

/-!
# Lexemes at the edge of what is seen

A reader may see only part of a text.  Behind the last visible position `hideFrom` leaves numerals
as they are and makes everything else foreign.  If, on the other hand, more is to be seen than there
is text, then a numeral at the end of the text is not known to be complete: `certain` takes it away.
-/

namespace Reckoner.Lexeme

/-- A lexeme outside the visible part of a text: a numeral is still read, anything else is
foreign. -/
def veil : Lexeme → Lexeme
  | numeral t => numeral t
  | symbol op => foreign op.toChar
  | white c | foreign c => foreign c

/-- The lexemes to the left of `pos`, nearest first, when only the positions below `stop` are
visible. -/
def hideFrom (stop : Int) : Int → List Lexeme → List Lexeme
  | _, [] => []
  | pos, l :: ls =>
    if pos ≤ stop then l :: ls else l.veil :: hideFrom stop (pos - l.length) ls

/-- Where everything is visible, nothing is hidden. -/
theorem hideFrom_of_le {stop pos : Int} (h : pos ≤ stop) (ls : List Lexeme) :
    hideFrom stop pos ls = ls := by
  cases ls <;> simp [hideFrom, h]

/-- The lexemes of a text that goes on unseen: those that are certain, and the length of a numeral
at the edge that might go on, if there is one. -/
def certain (ls : List Lexeme) : List Lexeme × Option Nat :=
  match ls.reverse with
  | foreign '.' :: numeral t :: rest =>
    if '.' ∈ t then ((numeral t :: rest).reverse, some 1) else (rest.reverse, some (t.length + 1))
  | foreign '.' :: rest => (rest.reverse, some 1)
  | numeral t :: rest => (rest.reverse, some t.length)
  | _ => (ls, none)

end Reckoner.Lexeme
