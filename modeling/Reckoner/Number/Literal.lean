import Reckoner.Number.Decimal
import Reckoner.Text.Digit
import Reckoner.Text.Spacing

/-!
# Numbers read from text

The general form of a number in a text: spacing around it, a sign, digits of any script with single
underscores between them, a point and an exponent, or one of the names of the values that are not
finite.  A numeral of an expression is the special case of digits with at most one point.
-/

namespace Reckoner.Literal

/-- The number that a row of digits writes. -/
def digitsValue (digits : Text) : Nat :=
  digits.foldl (fun n c => 10 * n + (c.toNat - '0'.toNat)) 0

/-- A text without its underscores, if each of them stands between two digits; `after` says that a
digit comes before the text. -/
def joinDigits? (after : Bool) : Text → Option Text
  | [] => some []
  | ['_'] => none
  | '_' :: c :: cs =>
    if after && c.isDigit then (joinDigits? true cs).map (c :: ·) else none
  | c :: cs => (joinDigits? c.isDigit cs).map (c :: ·)

/-- The bare text of a number: no spacing, the digits `0` to `9` for those of any script, and no
underscores. -/
def bare? (t : Text) : Option Text :=
  joinDigits? false
    ((Text.strip (fun c => Text.isSpacing c && !Text.isSeparator c) t).map Text.plainDigit)

/-- A sign and what follows it; a missing sign is a plus. -/
def signed : Text → Bool × Text
  | '-' :: cs => (true, cs)
  | '+' :: cs => (false, cs)
  | cs => (false, cs)

/-- A whole number without a sign. -/
def natural? (digits : Text) : Option Nat :=
  if digits ≠ [] ∧ digits.all Char.isDigit then some (digitsValue digits) else none

/-- A whole number with or without a sign. -/
def signedInteger? (t : Text) : Option Int :=
  let (negative, digits) := signed t
  (natural? digits).map fun n => if negative then -(n : Int) else n

/-- The exponent of a number, `0` if there is none. -/
def exponent? : Text → Option Int
  | [] => some 0
  | c :: cs => if c = 'e' ∨ c = 'E' then signedInteger? cs else none

/-- A number without a sign: digits, a point and an exponent.  Digits must stand before the point or
behind it. -/
def decimal? (t : Text) : Option Decimal :=
  let whole := t.takeWhile Char.isDigit
  let rest := t.dropWhile Char.isDigit
  let (places, rest) :=
    match rest with
    | '.' :: cs => (cs.takeWhile Char.isDigit, cs.dropWhile Char.isDigit)
    | cs => ([], cs)
  if whole = [] ∧ places = [] then none
  else (exponent? rest).map fun e => ⟨digitsValue (whole ++ places), e - places.length⟩

/-- The magnitude that a text without a sign denotes: a decimal, or a name in letters of either
case. -/
def magnitude? (t : Text) : Option Nat :=
  let name := String.ofList (t.map Char.toLower)
  if name = "inf" ∨ name = "infinity" then some Double.infinity
  else if name = "nan" then some (Double.infinity + Nat.pow 2 51)
  else (decimal? t).map Decimal.nearest

/-- The double that a text denotes. -/
def double? (t : Text) : Option Float := do
  let (negative, body) := signed (← bare? t)
  return Double.ofMagnitude negative (← magnitude? body)

/-- The whole number that a text denotes.  At most 4300 digits are read. -/
def integer? (t : Text) : Option Int := do
  let body ← bare? t
  if 4300 < (signed body).2.length then none else signedInteger? body

end Reckoner.Literal
