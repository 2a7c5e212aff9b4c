import Mathlib.Data.Rat.Cast.Order
import Mathlib.Tactic.FieldSimp
import Mathlib.Tactic.NormNum
import Mathlib.Tactic.Ring
import Reckoner.Number.Decimal

/-!
# Rounding to doubles

The magnitude to which a quotient is rounded depends on the quotient alone, not on the numbers that
give it (`Double.nearest_congr`), and the units of a magnitude are rounded to the magnitude
(`Double.nearest_units`).  So decimals of equal value denote the same double, with or without the
answers that are given before the power of ten is worked out (`Decimal.nearest_eq_of_value_eq`), and
the shortest decimal of a finite magnitude denotes it (`Decimal.nearest_shortest`).
-/

namespace Reckoner

namespace Double

variable {num den num' den' b : Nat}

/-! ## Quotients -/

/-- Rounding to a whole number depends on the quotient alone. -/
lemma roundDiv_mul_right (num den : Nat) {c : Nat} (hc : 0 < c) :
    roundDiv (num * c) (den * c) = roundDiv num den := by
  unfold roundDiv
  have hless : 2 * (num % den * c) < den * c ↔ 2 * (num % den) < den := by
    rw [← Nat.mul_assoc, Nat.mul_lt_mul_right hc]
  have hmore : den * c < 2 * (num % den * c) ↔ den < 2 * (num % den) := by
    rw [← Nat.mul_assoc, Nat.mul_lt_mul_right hc]
  simp only [Nat.mul_div_mul_right _ _ hc, Nat.mul_mod_mul_right, hless, hmore]

/-- A whole quotient is not rounded. -/
lemma roundDiv_mul_self (n : Nat) (hden : 0 < den) : roundDiv (n * den) den = n := by
  simp [roundDiv, Nat.mul_div_cancel n hden, hden]

/-- A quotient is rounded to one of the two whole numbers next to it. -/
lemma roundDiv_eq_or (num den : Nat) :
    roundDiv num den = num / den ∨ roundDiv num den = num / den + 1 := by
  simp only [roundDiv]
  have hparity := Nat.mod_two_eq_zero_or_one (num / den)
  split
  · exact .inl rfl
  · split
    · exact .inr rfl
    · omega

/-- The nearest magnitude has the lowest step in which the quotient has at most 53 bits, and the
quotient rounded in this step. -/
lemma nearest_eq (num den : Nat) : nearest num den =
    min infinity (((num / den).log2 - 52) * 2 ^ 52 +
      roundDiv num (den * 2 ^ ((num / den).log2 - 52))) := rfl

/-- The magnitude depends on the quotient alone. -/
lemma nearest_mul_right (num den : Nat) {c : Nat} (hc : 0 < c) :
    nearest (num * c) (den * c) = nearest num den := by
  rw [nearest_eq, nearest_eq, Nat.mul_div_mul_right _ _ hc, Nat.mul_right_comm den c,
    roundDiv_mul_right _ _ hc]

/-- Equal quotients are rounded to the same magnitude. -/
theorem nearest_congr (hden : 0 < den) (hden' : 0 < den') (h : num * den' = num' * den) :
    nearest num den = nearest num' den' := by
  calc nearest num den = nearest (num * den') (den * den') := (nearest_mul_right num den hden').symm
    _ = nearest (num' * den) (den' * den) := by rw [h, Nat.mul_comm den]
    _ = nearest num' den' := nearest_mul_right num' den' hden

/-! ## Magnitudes -/

/-- The number of units in one is a power of two. -/
lemma exists_one_eq : ∃ n, n = 1074 ∧ one = 2 ^ n := by
  delta one
  -- The exponent becomes a variable, so that nothing works the power out.
  generalize 1074 = n
  exact ⟨n, rfl, Nat.pow_eq⟩

/-- A magnitude is a step and a mantissa of at most 53 bits, all of them used unless the step is the
lowest. -/
lemma exists_mantissa (b : Nat) : ∃ s m, b = s * 2 ^ 52 + m ∧ units b = m * 2 ^ s ∧ m < 2 ^ 53 ∧
    (s = 0 ∨ 2 ^ 52 ≤ m) := by
  refine ⟨b / 2 ^ 52 - 1, b - (b / 2 ^ 52 - 1) * 2 ^ 52, ?_, rfl, ?_, ?_⟩ <;> omega

/-- The step of a magnitude is found from its units. -/
lemma log2_mantissa {s m : Nat} (hm : m < 2 ^ 53) (hfull : s = 0 ∨ 2 ^ 52 ≤ m) :
    (m * 2 ^ s).log2 - 52 = s := by
  rcases Nat.eq_zero_or_pos m with rfl | hpos
  · rcases hfull with rfl | hfull
    · simp
    · omega
  have hne : m * 2 ^ s ≠ 0 := (Nat.mul_pos hpos (Nat.two_pow_pos s)).ne'
  have hupper : (m * 2 ^ s).log2 < 53 + s := by
    rw [Nat.log2_lt hne, Nat.pow_add]
    exact Nat.mul_lt_mul_of_pos_right hm (Nat.two_pow_pos s)
  rcases hfull with rfl | hfull
  · omega
  · have hlower : 52 + s ≤ (m * 2 ^ s).log2 := by
      rw [Nat.le_log2 hne, Nat.pow_add]
      exact Nat.mul_le_mul_right _ hfull
    omega

/-- The units of a magnitude are rounded to the magnitude. -/
theorem nearest_units (hb : b < infinity) (hden : 0 < den) : nearest (units b * den) den = b := by
  obtain ⟨s, m, hbits, hunits, hm, hfull⟩ := exists_mantissa b
  have hcancel : m * 2 ^ s * den = m * (den * 2 ^ s) := by ring
  have hround := roundDiv_mul_self m (Nat.mul_pos hden (Nat.two_pow_pos s))
  rw [nearest_eq, hunits, Nat.mul_div_cancel _ hden, log2_mantissa hm hfull, hcancel, hround,
    ← hbits, Nat.min_eq_right hb.le]

/-- What is not halfway to the least magnitude is rounded to zero. -/
lemma nearest_eq_zero (h : 2 * num < den) : nearest num den = 0 := by
  have hquotient : num / den = 0 := Nat.div_eq_of_lt (by omega)
  have hremainder : num % den = num := Nat.mod_eq_of_lt (by omega)
  simp [nearest_eq, roundDiv, hquotient, hremainder, h]

/-- Beyond the largest finite magnitude, everything is rounded to infinity. -/
lemma nearest_eq_infinity {k : Nat} (hk : 2098 ≤ k) (h : 2 ^ k ≤ num / den) :
    nearest num den = infinity := by
  have hne : num / den ≠ 0 := (Nat.lt_of_lt_of_le (Nat.two_pow_pos k) h).ne'
  have hlog : k ≤ (num / den).log2 := (Nat.le_log2 hne).mpr h
  rw [nearest_eq]
  generalize hshift : (num / den).log2 - 52 = s
  -- The steps alone come to 2046, and the full mantissa makes up for the last one.
  have hmantissa : 2 ^ 52 ≤ num / (den * 2 ^ s) := by
    rw [← Nat.div_div_eq_div_mul, Nat.le_div_iff_mul_le (Nat.two_pow_pos s), ← Nat.pow_add]
    have hs : 52 + s = (num / den).log2 := by omega
    rw [hs]
    exact Nat.log2_self_le hne
  have hround : num / (den * 2 ^ s) ≤ roundDiv num (den * 2 ^ s) := by
    rcases roundDiv_eq_or num (den * 2 ^ s) with heq | heq <;> omega
  have hinfinity : infinity = 2047 * 2 ^ 52 := rfl
  rw [hinfinity]
  exact Nat.min_eq_left (by omega)

end Double

namespace Decimal

open Double

variable {num den b : Nat} {d d' : Decimal}

/-! ## Decimals -/

/-- The number that a decimal stands for. -/
def value (d : Decimal) : ℚ := d.digits * (10 : ℚ) ^ d.exponent

/-- The power of ten is at least the power of two with three times its exponent. -/
lemma two_pow_le_ten_pow (k : Nat) : 2 ^ (3 * k) ≤ 10 ^ k := by
  rw [Nat.pow_mul]
  exact Nat.pow_le_pow_left (by decide) k

/-- A decimal with zeros at its end is rounded as the whole number that it is, also where it is too
large for that to be worked out. -/
lemma nearest_ofNat (n k : Nat) :
    nearest ⟨n, .ofNat k⟩ = Double.nearest (n * 10 ^ k * one) 1 := by
  simp only [nearest, Nat.pow_eq]
  split
  · rename_i hzero
    rw [hzero, Nat.zero_mul, Nat.zero_mul, nearest_eq_zero (by decide)]
  split
  · rename_i hzero hk
    obtain ⟨m, hm, hone⟩ := exists_one_eq
    have hpow : 2 ^ (3 * k + m) ≤ n * 10 ^ k * one / 1 := by
      rw [Nat.div_one, Nat.pow_add, hone]
      refine Nat.mul_le_mul_right _ ((two_pow_le_ten_pow k).trans ?_)
      exact Nat.le_mul_of_pos_left _ (Nat.pos_of_ne_zero hzero)
    rw [nearest_eq_infinity (by omega) hpow]
  · rfl

/-- A decimal with digits behind the point is rounded as the quotient that it is, also where it is
too small for that to be worked out. -/
lemma nearest_negSucc (n k : Nat) :
    nearest ⟨n, .negSucc k⟩ = Double.nearest (n * one) (10 ^ (k + 1)) := by
  simp only [nearest, Nat.pow_eq]
  split
  · rename_i hk
    obtain ⟨m, hm, hone⟩ := exists_one_eq
    have hsmall : 2 * (n * one) < 10 ^ (k + 1) := by
      have hn : n < 2 ^ (n.log2 + 1) := Nat.lt_log2_self
      calc 2 * (n * one) < 2 * (2 ^ (n.log2 + 1) * 2 ^ m) := by
            rw [hone]
            refine Nat.mul_lt_mul_of_pos_left ?_ (by decide)
            exact Nat.mul_lt_mul_of_pos_right hn (Nat.two_pow_pos m)
        _ = 2 ^ (n.log2 + 1 + m + 1) := by rw [← Nat.pow_add, ← Nat.pow_succ']
        _ ≤ 2 ^ (3 * (k + 1)) := Nat.pow_le_pow_right (by decide) (by omega)
        _ ≤ 10 ^ (k + 1) := two_pow_le_ten_pow (k + 1)
    rw [nearest_eq_zero hsmall]
  · rfl

/-- No decimal denotes a magnitude beyond infinity. -/
lemma nearest_le_infinity (d : Decimal) : d.nearest ≤ infinity := by
  obtain ⟨n, k | k⟩ := d
  · rw [nearest_ofNat]
    exact Nat.min_le_left _ _
  · rw [nearest_negSucc]
    exact Nat.min_le_left _ _

/-- What is equal to a decimal with zeros at its end, counted in units. -/
lemma mul_eq_of_value_ofNat {n k unit : Nat} (h : (num : ℚ) = value ⟨n, .ofNat k⟩ * unit * den) :
    num = n * 10 ^ k * unit * den := by
  have hcast : (num : ℚ) = n * 10 ^ k * unit * den := by simpa [value] using h
  exact_mod_cast hcast

/-- What is equal to a decimal with digits behind the point, counted in units. -/
lemma mul_eq_of_value_negSucc {n k unit : Nat}
    (h : (num : ℚ) = value ⟨n, .negSucc k⟩ * unit * den) :
    num * 10 ^ (k + 1) = n * unit * den := by
  have hcast : (num : ℚ) * 10 ^ (k + 1) = n * unit * den := by
    rw [h, value, zpow_negSucc]
    field_simp
  exact_mod_cast hcast

/-- A decimal is rounded as any quotient that it is equal to. -/
theorem nearest_eq_of_value (hden : 0 < den) (h : (num : ℚ) = d.value * one * den) :
    d.nearest = Double.nearest num den := by
  obtain ⟨n, k | k⟩ := d
  · rw [nearest_ofNat]
    exact nearest_congr Nat.one_pos hden (by rw [mul_eq_of_value_ofNat h, Nat.mul_one])
  · rw [nearest_negSucc]
    exact nearest_congr (Nat.pow_pos (by decide)) hden (mul_eq_of_value_negSucc h).symm

/-- Every decimal is equal to a quotient, in any unit. -/
lemma exists_quotient (d : Decimal) (unit : Nat) :
    ∃ num den, 0 < den ∧ ((num : Nat) : ℚ) = d.value * unit * (den : Nat) := by
  obtain ⟨n, k | k⟩ := d
  · exact ⟨n * 10 ^ k * unit, 1, Nat.one_pos, by simp [value]⟩
  · refine ⟨n * unit, 10 ^ (k + 1), Nat.pow_pos (by decide), ?_⟩
    rw [value, zpow_negSucc]
    push_cast
    field_simp

/-- Equal decimals are rounded to the same magnitude. -/
theorem nearest_eq_of_value_eq (h : d.value = d'.value) : d.nearest = d'.nearest := by
  obtain ⟨num, den, hden, hnum⟩ := d'.exists_quotient one
  rw [nearest_eq_of_value hden hnum]
  exact nearest_eq_of_value hden (by rw [h, hnum])

/-! ## The shortest decimal of a magnitude -/

/-- The exact value of a magnitude is rounded to the magnitude. -/
lemma nearest_exact (hb : b < infinity) : (exact b).nearest = b := by
  obtain ⟨n, hn, hone⟩ := exists_one_eq
  have hexact : exact b = ⟨units b * 5 ^ n, -(n : Int)⟩ := by
    have hplaces : (-1074 : Int) = -(n : Int) := by omega
    delta exact
    rw [hplaces]
    generalize 1074 = k at hn ⊢
    rw [hn, Nat.pow_eq]
  have hvalue : ((units b * 1 : Nat) : ℚ) = (exact b).value * one * (1 : Nat) := by
    have hten : (10 : ℚ) ^ n = 5 ^ n * 2 ^ n := by
      rw [← mul_pow]
      norm_num
    rw [hexact, value, hone, zpow_neg, zpow_natCast, hten]
    push_cast
    field_simp
  rw [nearest_eq_of_value Nat.one_pos hvalue]
  exact nearest_units hb Nat.one_pos

/-- A decimal has the same value without a zero at its end. -/
lemma value_reduce (d : Decimal) : d.reduce.value = d.value := by
  unfold reduce
  split
  · rename_i hzero
    obtain ⟨n, hn⟩ := Nat.dvd_of_mod_eq_zero hzero
    have hdigits : d.digits / 10 = n := by omega
    simp only [value]
    rw [hdigits, hn, zpow_add₀ (by norm_num)]
    push_cast
    ring
  · rfl

/-- A decimal that is found on a grid denotes the magnitude that was looked for. -/
lemma nearest_of_onGrid? {k : Int} (h : onGrid? b k = some d) : d.nearest = b := by
  unfold onGrid? at h
  generalize scale b k = fraction at h
  obtain ⟨num, den⟩ := fraction
  simp only at h
  split at h
  · rename_i hbelow habove
    obtain rfl := Option.some.inj h
    rcases roundDiv_eq_or num den with hround | hround
    · rw [hround]
      exact eq_of_beq hbelow
    · rw [hround]
      exact eq_of_beq habove
  · rename_i hbelow _
    obtain rfl := Option.some.inj h
    exact eq_of_beq hbelow
  · rename_i habove
    obtain rfl := Option.some.inj h
    exact eq_of_beq habove
  · cases h

/-- The shortest decimal of a finite magnitude denotes it. -/
theorem nearest_shortest (hb : b < infinity) : (shortest b).nearest = b := by
  unfold shortest
  split
  · rename_i hzero
    rw [hzero]
    simp [nearest]
  simp only
  rw [nearest_eq_of_value_eq (value_reduce _)]
  generalize hfound : (List.range 17).findSome? _ = found
  cases found with
  -- Seventeen digits are always enough, but the exact value denotes the magnitude as well.
  | none => exact nearest_exact hb
  | some d =>
    obtain ⟨n, -, hn⟩ := List.exists_of_findSome?_eq_some hfound
    exact nearest_of_onGrid? hn

end Decimal

end Reckoner
