import Reckoner.Number.Double

/-!
# Decimals and the doubles they denote

A decimal is a whole number of powers of ten.  `Decimal.nearest` is the magnitude of the double
that it denotes, and `shortest` is the decimal with the fewest digits that denotes a given
magnitude, the nearest to it among those.
-/

namespace Reckoner

/-- The number `digits * 10 ^ exponent`. -/
structure Decimal where
  digits : Nat
  exponent : Int
deriving DecidableEq, Repr

namespace Decimal

/-- The magnitude nearest to a decimal.  A nonzero decimal with more than four hundred zeros at its
end is beyond every finite magnitude, and one below `2 ^ -1080` rounds to zero; both answers are
given without the power of ten. -/
def nearest (d : Decimal) : Nat :=
  match d.exponent with
  | .ofNat k =>
    if d.digits = 0 then 0
    else if 400 < k then Double.infinity
    else Double.nearest (d.digits * Nat.pow 10 k * Double.one) 1
  | .negSucc k =>
    if d.digits.log2 + 1081 < 3 * (k + 1) then 0
    else Double.nearest (d.digits * Double.one) (Nat.pow 10 (k + 1))

/-- The value of a magnitude counted in the power of ten `10 ^ k`, as a fraction. -/
def scale (b : Nat) (k : Int) : Nat × Nat :=
  match k with
  | .ofNat k => (Double.units b, Double.one * Nat.pow 10 k)
  | .negSucc k => (Double.units b * Nat.pow 10 (k + 1), Double.one)

/-- The number of digits before the point of the value of a magnitude; for a value below a tenth it
is the number of zeros behind the point, taken negative. -/
def leading (b : Nat) : Int :=
  (Nat.toDigits 10 (Double.units b * Nat.pow 10 400 / Double.one)).length - 400

/-- The multiple of `10 ^ k` that denotes the magnitude `b`, if there is one; of two the nearer, and
the even one if they are equally near. -/
def onGrid? (b : Nat) (k : Int) : Option Decimal :=
  let (num, den) := scale b k
  let below : Decimal := ⟨num / den, k⟩
  let above : Decimal := ⟨num / den + 1, k⟩
  match below.nearest == b, above.nearest == b with
  | true, true => some ⟨Double.roundDiv num den, k⟩
  | true, false => some below
  | false, true => some above
  | false, false => none

/-- The value of a magnitude, every digit of it. -/
def exact (b : Nat) : Decimal := ⟨Double.units b * Nat.pow 5 1074, -1074⟩

/-- The same number without the last digit, if that is a zero. -/
def reduce (d : Decimal) : Decimal :=
  if d.digits % 10 = 0 then ⟨d.digits / 10, d.exponent + 1⟩ else d

/-- The decimal with the fewest digits that denotes a magnitude below infinity.  A multiple of ten
arises where the nearest decimal of one digit is the next power of ten. -/
def shortest (b : Nat) : Decimal :=
  if b = 0 then ⟨0, 0⟩
  else
    let top := leading b
    (((List.range 17).findSome? fun (n : Nat) => onGrid? b (top - (n + 1))).getD (exact b)).reduce

/-- The digits of a decimal, its exponent apart. -/
def digitText (d : Decimal) : List Char := Nat.toDigits 10 d.digits

/-- The place of the leading digit: `0` for the ones, `1` for the tens, `-1` for the tenths. -/
def order (d : Decimal) : Int := d.digitText.length + d.exponent - 1

end Decimal

end Reckoner
