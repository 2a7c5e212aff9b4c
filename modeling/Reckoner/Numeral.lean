import Reckoner.Text.Basic

/-!
# Numerals

A numeral is digits, or digits with one point that at least one digit follows; the digits before the
point may be missing.  It has no sign and no exponent.  `reach` is the length of the longest numeral
at the place where a reader stands, to the right of it or to the left.
-/

namespace Reckoner.Numeral

/-- The length of the longest numeral at the front of a text, and `0` where there is none. -/
def reachForward (cs : Text) : Nat :=
  let whole := (cs.takeWhile Char.isDigit).length
  match cs.dropWhile Char.isDigit with
  | '.' :: rest =>
    let places := (rest.takeWhile Char.isDigit).length
    if places = 0 then whole else whole + 1 + places
  | _ => whole

/-- The length of the longest numeral that ends where the reader stands, for a text read from the
right, and `0` where there is none. -/
def reachBackward (cs : Text) : Nat :=
  let last := (cs.takeWhile Char.isDigit).length
  if last = 0 then 0
  else
    match cs.dropWhile Char.isDigit with
    | '.' :: rest => last + 1 + (rest.takeWhile Char.isDigit).length
    | _ => last

/-- The length of the longest numeral at the reader's place, for a text in reading order. -/
def reach : Direction → Text → Nat
  | .forward => reachForward
  | .backward => reachBackward

end Reckoner.Numeral
