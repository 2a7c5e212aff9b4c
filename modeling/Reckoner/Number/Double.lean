/-!
# Doubles as whole numbers of units

A finite double is a sign and a whole number of units, the unit being the least positive double,
`2 ^ -1074`.  The magnitude of a double is the 63 bits below its sign; read as a number, magnitudes
are ordered as the values they stand for.  `nearest` takes a quotient, counted in units, to the
magnitude that it rounds to.
-/

namespace Reckoner.Double

/-- The magnitude of the infinities; the magnitudes above it are no numbers. -/
def infinity : Nat := 0x7ff0000000000000

/-- The number of units in one. -/
def one : Nat := Nat.pow 2 1074

/-- The number of units that a magnitude below `infinity` stands for. -/
def units (b : Nat) : Nat :=
  let shift := b / Nat.pow 2 52 - 1
  (b - shift * Nat.pow 2 52) * Nat.pow 2 shift

/-- The quotient `num / den` rounded to the nearest whole number, a half to the even one. -/
def roundDiv (num den : Nat) : Nat :=
  let q := num / den
  let r := num % den
  if 2 * r < den then q else if den < 2 * r then q + 1 else q + q % 2

/-- The magnitude nearest to `num / den` units: halfway between two it is the even one, and from
half a step beyond the largest finite magnitude on it is `infinity`. -/
def nearest (num den : Nat) : Nat :=
  let shift := (num / den).log2 - 52
  min infinity (shift * Nat.pow 2 52 + roundDiv num (den * Nat.pow 2 shift))

/-- Is the sign of a double the negative one? -/
def isNegative (x : Float) : Bool := Nat.pow 2 63 ≤ x.toBits.toNat

/-- The magnitude of a double. -/
def magnitude (x : Float) : Nat := x.toBits.toNat % Nat.pow 2 63

/-- The double with a sign and a magnitude. -/
def ofMagnitude (negative : Bool) (b : Nat) : Float :=
  Float.ofBits (UInt64.ofNat (if negative then Nat.pow 2 63 + b else b))

end Reckoner.Double
