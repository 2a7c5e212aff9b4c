import Reckoner.Number.Decimal

/-!
# Written doubles

The texts of doubles that this library writes: `plain` without an exponent, `display` with an
exponent for very large and very small values, and `fixed` and `scientific` with a given number of
places.
-/

namespace Reckoner

/-- A decimal without an exponent: zeros are padded up to the point. -/
def Decimal.positional (d : Decimal) : List Char :=
  let digits := d.digitText
  match d.exponent with
  | .ofNat k => if d.digits = 0 then ['0'] else digits ++ List.replicate k '0'
  | .negSucc k =>
    if k + 1 < digits.length then
      digits.take (digits.length - (k + 1)) ++ '.' :: digits.drop (digits.length - (k + 1))
    else
      '0' :: '.' :: (List.replicate (k + 1 - digits.length) '0' ++ digits)

/-- The exponent part of a number: a sign and at least two digits. -/
def exponentText (e : Int) : List Char :=
  let digits := Nat.toDigits 10 e.natAbs
  'e' :: (if e < 0 then '-' else '+') :: (if digits.length < 2 then '0' :: digits else digits)

/-- A decimal with one digit before the point and an exponent. -/
def Decimal.withExponent (d : Decimal) : List Char :=
  match d.digitText with
  | [] => []
  | [c] => c :: exponentText d.order
  | c :: cs => c :: '.' :: (cs ++ exponentText d.order)

namespace Double

/-- A double written by `finite`, which is given its magnitude.  The value that is no number has no
sign. -/
def written (finite : Nat → List Char) (x : Float) : List Char :=
  let b := magnitude x
  if infinity < b then ['n', 'a', 'n']
  else
    let body := if b = infinity then ['i', 'n', 'f'] else finite b
    if isNegative x then '-' :: body else body

/-- The shortest digits that denote a double, without an exponent. -/
def plain : Float → List Char := written fun b => (Decimal.shortest b).positional

/-- The shortest digits that denote a double.  They have an exponent if the leading digit is of an
order below `-4` or from `16` on, and else at least one place behind the point. -/
def display : Float → List Char := written fun b =>
  let d := Decimal.shortest b
  if b ≠ 0 ∧ (d.order < -4 ∨ 16 ≤ d.order) then d.withExponent
  else
    let body := d.positional
    if '.' ∈ body then body else body ++ ['.', '0']

/-- A double rounded to `places` places, a half to the even digit. -/
def fixed (places : Nat) : Float → List Char := written fun b =>
  let (num, den) := Decimal.scale b (-places)
  let digits := Nat.toDigits 10 (roundDiv num den)
  let padded := List.replicate (places + 1 - digits.length) '0' ++ digits
  padded.take (padded.length - places) ++ '.' :: padded.drop (padded.length - places)

/-- A double rounded to one digit before the point and `places` behind it, with an exponent. -/
def scientific (places : Nat) : Float → List Char := written fun b =>
  if b = 0 then '0' :: '.' :: (List.replicate places '0' ++ exponentText 0)
  else
    let k := Decimal.leading b - (places + 1)
    let (num, den) := Decimal.scale b k
    let rounded := roundDiv num den
    let d : Decimal :=
      if rounded = Nat.pow 10 (places + 1) then ⟨Nat.pow 10 places, k + 1⟩ else ⟨rounded, k⟩
    d.withExponent

end Double

end Reckoner
