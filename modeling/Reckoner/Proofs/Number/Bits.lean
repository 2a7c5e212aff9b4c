import Mathlib
import Reckoner.Number.Double

/-!
# The bits of doubles

A double is determined by its sign and its magnitude (`ofMagnitude_magnitude`), and the double of a
sign and a finite magnitude has their bits (`toBits_ofMagnitude`).  It is finite if the magnitude is
below infinity (`isFinite_iff`), and then the negative double has the other sign and the same
magnitude (`neg_ofMagnitude`).
-/

namespace Reckoner

namespace Double

open Float.Model UnpackedFloat

variable {b : Nat}

/-! ## Sign and magnitude -/

/-- The bits of a sign and a magnitude. -/
def signedBits (negative : Bool) (b : Nat) : BitVec Format.binary64.numBits :=
  BitVec.ofNat 64 (if negative then 2 ^ 63 + b else b)

/-- The bits of a sign and a magnitude, as a number. -/
lemma toNat_signedBits (negative : Bool) (hb : b < 2 ^ 63) :
    (signedBits negative b).toNat = if negative then 2 ^ 63 + b else b := by
  refine (BitVec.toNat_ofNat _ 64).trans (Nat.mod_eq_of_lt ?_)
  split <;> omega

/-- A magnitude leaves the bit of the sign free. -/
lemma magnitude_lt (x : Float) : magnitude x < 2 ^ 63 := Nat.mod_lt _ (by decide)

/-- A finite magnitude leaves the bit of the sign free. -/
lemma lt_of_lt_infinity (hb : b < infinity) : b < 2 ^ 63 := by
  simp only [infinity] at hb
  omega

/-- A double has the bits of its sign and its magnitude. -/
lemma signedBits_magnitude (x : Float) :
    signedBits (isNegative x) (magnitude x) = x.toBits.toBitVec := by
  apply BitVec.eq_of_toNat_eq
  rw [toNat_signedBits _ (magnitude_lt x)]
  have hbits : x.toBits.toNat < 2 ^ 64 := x.toBits.toNat_lt
  change _ = x.toBits.toNat
  simp only [isNegative, magnitude, Nat.pow_eq, decide_eq_true_eq]
  split <;> omega

/-- A double is its sign and its magnitude. -/
lemma ofMagnitude_magnitude (x : Float) : ofMagnitude (isNegative x) (magnitude x) = x := by
  have hbits := congrArg (fun w => Float.ofBits (UInt64.ofBitVec w)) (signedBits_magnitude x)
  exact hbits.trans (Float.ofBits_toBits x)

/-! ## The parts of the bits -/

/-- The exponent is the upper part of the magnitude. -/
lemma unpackExponent_signedBits (negative : Bool) (hb : b < 2 ^ 63) :
    unpackExponent (signedBits negative b) = BitVec.ofNat 11 (b / 2 ^ 52) := by
  rw [unpackExponent_def]
  apply BitVec.eq_of_toNat_eq
  rw [BitVec.extractLsb'_toNat, toNat_signedBits negative hb, BitVec.toNat_ofNat,
    Nat.shiftRight_eq_div_pow]
  dsimp only
  split <;> omega

/-- The mantissa is the lower part of the magnitude. -/
lemma unpackMantissa_signedBits (negative : Bool) (hb : b < 2 ^ 63) :
    unpackMantissa (signedBits negative b) = BitVec.ofNat 52 b := by
  rw [unpackMantissa_def]
  apply BitVec.eq_of_toNat_eq
  rw [BitVec.extractLsb'_toNat, toNat_signedBits negative hb, BitVec.toNat_ofNat,
    Nat.shiftRight_eq_div_pow]
  dsimp only
  split <;> omega

/-- The sign is the bit above the magnitude. -/
lemma unpackSign_signedBits (negative : Bool) (hb : b < 2 ^ 63) :
    unpackSign (signedBits negative b) = BitVec.ofBool negative := by
  rw [unpackSign_def]
  apply BitVec.eq_of_toNat_eq
  rw [BitVec.extractLsb'_toNat, toNat_signedBits negative hb, Nat.shiftRight_eq_div_pow]
  dsimp only
  cases negative <;> simp <;> omega

/-- The exponent is the highest one from infinity on. -/
lemma unpackExponent_eq_iff (negative : Bool) (hb : b < 2 ^ 63) :
    unpackExponent (signedBits negative b) = -1#11 ↔ infinity ≤ b := by
  rw [unpackExponent_signedBits negative hb, ← BitVec.toNat_inj, BitVec.toNat_ofNat]
  have hhighest : (-1#11).toNat = 2047 := rfl
  rw [hhighest, infinity]
  omega

/-- The finite doubles are those whose magnitude is below infinity. -/
theorem isFinite_iff {x : Float} : x.isFinite ↔ magnitude x < infinity := by
  let bits := signedBits (isNegative x) (magnitude x)
  have hfinite : x.isFinite = (UnpackedFloat.unpack Format.binary64 bits).isFinite := by
    simp only [bits, signedBits_magnitude]
    rfl
  have hexponent : unpackExponent bits = -1#11 ↔ infinity ≤ magnitude x :=
    unpackExponent_eq_iff (isNegative x) (magnitude_lt x)
  rw [hfinite, UnpackedFloat.unpack]
  by_cases hb : infinity ≤ magnitude x
  · simp only [if_pos (hexponent.mpr hb)]
    refine iff_of_false ?_ hb.not_gt
    split <;> exact Bool.false_ne_true
  · simp only [if_neg (hexponent.not.mpr hb)]
    refine iff_of_true ?_ (Nat.lt_of_not_le hb)
    split
    · split <;> rfl
    · rfl

/-! ## Turning the sign -/

/-- The bits of a finite magnitude are those of a double. -/
lemma valid_signedBits (negative : Bool) (hb : b < infinity) :
    Format.binary64.Valid (signedBits negative b) := by
  refine ⟨fun hexponent => absurd hexponent ?_⟩
  rw [unpackExponent_eq_iff negative (lt_of_lt_infinity hb)]
  exact hb.not_ge

/-- The double with a sign and a finite magnitude has their bits. -/
lemma toBits_ofMagnitude (negative : Bool) (hb : b < infinity) :
    (ofMagnitude negative b).toBits.toNat = if negative then 2 ^ 63 + b else b := by
  have hbits : (ofMagnitude negative b).toBits.toNat = (signedBits negative b).toNat :=
    congrArg BitVec.toNat (pack_unpack_of_valid (valid_signedBits negative hb))
  rw [hbits, toNat_signedBits negative (lt_of_lt_infinity hb)]

/-- A finite double without the negative sign is not negative. -/
lemma isNegative_ofMagnitude (hb : b < infinity) : isNegative (ofMagnitude false b) = false := by
  have hsmall := lt_of_lt_infinity hb
  rw [isNegative, toBits_ofMagnitude false hb]
  simpa [Nat.pow_eq] using hsmall

/-- Turning the sign of the bits turns the sign of the number. -/
lemma neg_unpack_signedBits (hb : b < infinity) :
    (UnpackedFloat.unpack Format.binary64 (signedBits false b)).neg =
      UnpackedFloat.unpack Format.binary64 (signedBits true b) := by
  have hbits := lt_of_lt_infinity hb
  have hfinite := (unpackExponent_eq_iff false hbits).not.mpr hb.not_ge
  simp only [unpackExponent_signedBits _ hbits] at hfinite
  simp only [UnpackedFloat.unpack, unpackExponent_signedBits _ hbits,
    unpackMantissa_signedBits _ hbits, unpackSign_signedBits _ hbits, hfinite, if_false]
  split
  · split
    · rfl
    · rfl
  · rfl

/-- The negative of a finite double has the other sign and the same magnitude. -/
theorem neg_ofMagnitude (hb : b < infinity) :
    (ofMagnitude false b).neg = ofMagnitude true b := by
  have hpack := pack_unpack_of_valid (valid_signedBits false hb)
  have hunpack : (ofMagnitude false b).toModel.unpack =
      UnpackedFloat.unpack Format.binary64 (signedBits false b) :=
    congrArg (UnpackedFloat.unpack Format.binary64) hpack
  -- Negation works on the parts of a double, and the parts of packed bits are those of the bits.
  have hneg : (ofMagnitude false b).neg =
      .ofModel (pack (ofMagnitude false b).toModel.unpack.neg) := rfl
  rw [hneg, hunpack, neg_unpack_signedBits hb]
  rfl

end Double

end Reckoner
