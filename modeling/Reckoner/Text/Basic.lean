/-!
# Texts and their character classes

A text is the list of its characters, and every position or length in this library counts
characters.  The classes `isBlank` and `isWhite` are closed: white space is three blanks and four
line characters.  The decimal digits of an expression are the ten of `Char.isDigit`.

Positions are integers where they may come from outside: `at?` answers only inside the text, while
the bounds of `slice` count from the end when they are negative.
-/

namespace Reckoner

/-- A text is the list of its characters. -/
abbrev Text := List Char

/-- The two ways to read a text: from its beginning to the right, or from its end to the left. -/
inductive Direction
  | forward
  | backward
deriving DecidableEq, Repr

namespace Text

/-! ## Classes -/

/-- A space, a tab or a no-break space: white space that stays on its line. -/
def isBlank (c : Char) : Bool :=
  c == ' ' || c == '\t' || c == '\u00a0'

/-- A blank, or a line feed, a carriage return, a form feed or a vertical tab. -/
def isWhite (c : Char) : Bool :=
  isBlank c || c == '\n' || c == '\r' || c == '\x0c' || c == '\x0b'

/-- Blanks are white. -/
theorem isWhite_of_isBlank {c : Char} (h : isBlank c) : isWhite c := by
  simp [isWhite, h]

/-! ## Positions -/

/-- The character at position `i` of `t`, if `i` lies in the text. -/
def at? (t : Text) (i : Int) : Option Char :=
  if i < 0 then none else t[i.toNat]?

/-- The part of `t` before position `i`, read from the right: nearest character first. -/
def behind (t : Text) (i : Int) : Text :=
  (t.take i.toNat).reverse

/-- The offset that a slice bound `i` names in a text of `size` characters: a negative bound counts
from the end, and a bound outside the text is moved to its nearer edge. -/
def bound (size : Nat) (i : Int) : Nat :=
  if i < 0 then (i + size).toNat else min i.toNat size

/-- The part of `t` from bound `i` up to bound `j`, empty when the bounds cross. -/
def slice (t : Text) (i j : Int) : Text :=
  (t.take (bound t.length j)).drop (bound t.length i)

/-- Between positions of the text, a slice takes what lies between them. -/
theorem slice_natCast (t : Text) (i j : Nat) : t.slice i j = (t.take j).drop i := by
  have h (n : Nat) : bound t.length (n : Int) = min n t.length := by
    simp [bound, show ¬ (n : Int) < 0 by omega]
  rw [slice, h, h]
  rcases Nat.le_total i t.length with hi | hi
  · rw [Nat.min_eq_left hi, ← List.take_eq_take_min]
  · rw [Nat.min_eq_right hi, ← List.take_eq_take_min]
    rw [List.drop_eq_nil_of_le (by rw [List.length_take]; omega),
      List.drop_eq_nil_of_le (by rw [List.length_take]; omega)]

end Text

end Reckoner
