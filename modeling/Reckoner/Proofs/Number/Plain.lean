import Reckoner.Proofs.Number.Bits
import Reckoner.Proofs.Number.Nearest
import Reckoner.Proofs.Numerals

/-!
# Written doubles are read back

The text of a decimal without an exponent is a numeral, and the numeral denotes the double to which
the decimal is rounded (`Decimal.isNumeral_positional`).  So a finite double is written as a numeral
that denotes its magnitude, with a minus sign in front if it is negative
(`Double.exists_plain_eq`).
-/

namespace Reckoner

/-! ## Digits -/

namespace Literal

/-- The digits that write a number have the value of the number. -/
lemma digitsValue_toDigits (n : Nat) : digitsValue (Nat.toDigits 10 n) = n :=
  Nat.ofDigitChars_ten_toDigits

/-- Zeros at the end of a row of digits multiply its value. -/
lemma digitsValue_append_zeros (ds : Text) (k : Nat) :
    digitsValue (ds ++ List.replicate k '0') = digitsValue ds * 10 ^ k := by
  have happend := Nat.ofDigitChars_append (b := 10) (l := ds) (m := List.replicate k '0') 0
  rw [Nat.ofDigitChars_replicate_zero, Nat.mul_comm] at happend
  exact happend

/-- Zeros at the beginning of a row of digits do not change its value. -/
lemma digitsValue_zeros_append (ds : Text) (k : Nat) :
    digitsValue (List.replicate k '0' ++ ds) = digitsValue ds := by
  have happend := Nat.ofDigitChars_append (b := 10) (l := List.replicate k '0') (m := ds) 0
  rw [Nat.ofDigitChars_replicate_zero, Nat.mul_zero] at happend
  exact happend

end Literal

namespace Numeral

/-- A numeral without a point denotes the whole number of its digits. -/
lemma value_whole {ds : Text} (hds : ∀ c ∈ ds, c.isDigit) :
    value ds = Double.ofMagnitude false (Decimal.nearest ⟨Literal.digitsValue ds, 0⟩) := by
  obtain ⟨-, hdrop⟩ := span_append hds [] (by simp)
  rw [List.append_nil] at hdrop
  rw [value, List.filter_eq_self.mpr hds, hdrop]
  rfl

/-- A numeral with a point denotes the number of its digits, divided by ten for each of those behind
the point. -/
lemma value_point {ds ps : Text} (hds : ∀ c ∈ ds, c.isDigit) (hps : ∀ c ∈ ps, c.isDigit) :
    value (ds ++ '.' :: ps) = Double.ofMagnitude false
      (Decimal.nearest ⟨Literal.digitsValue (ds ++ ps), -(ps.length : Nat)⟩) := by
  obtain ⟨-, hdrop⟩ := span_append hds ('.' :: ps) (by simp [isDigit_point])
  have hfilter : (ds ++ '.' :: ps).filter Char.isDigit = ds ++ ps := by
    simp [List.filter_eq_self.mpr hds, List.filter_eq_self.mpr hps, isDigit_point]
  rw [value, hfilter, hdrop]
  rfl

/-- No numeral denotes a negative number. -/
lemma isNegative_value (w : Text) : Double.isNegative (value w) = false := by
  rcases (Decimal.nearest_le_infinity _).lt_or_eq with hfinite | hinfinite
  · exact Double.isNegative_ofMagnitude hfinite
  · rw [value, hinfinite]
    decide

end Numeral

/-! ## Written decimals -/

namespace Decimal

/-- The digits of a decimal are digits. -/
lemma isDigit_of_mem_digitText {d : Decimal} {c : Char} (h : c ∈ d.digitText) : c.isDigit :=
  Nat.isDigit_of_mem_toDigits (by decide) (by decide) h

/-- A text with a point denotes the double of a decimal if it has the digits of the decimal, and as
many of them behind the point as the exponent says. -/
lemma isNumeral_point {n k : Nat} {ds ps : Text} (hds : ∀ c ∈ ds, c.isDigit)
    (hps : ∀ c ∈ ps, c.isDigit) (hlength : ps.length = k + 1)
    (hvalue : Literal.digitsValue (ds ++ ps) = n) :
    Numeral.IsNumeral (ds ++ '.' :: ps) ∧ Numeral.value (ds ++ '.' :: ps) =
      Double.ofMagnitude false (nearest ⟨n, .negSucc k⟩) := by
  have hne : ps ≠ [] := List.ne_nil_of_length_pos (by omega)
  refine ⟨.point hds hne hps, ?_⟩
  rw [Numeral.value_point hds hps, hvalue, hlength]
  rfl

/-- The text of a decimal is a numeral and denotes the double of the decimal. -/
theorem isNumeral_positional (d : Decimal) : Numeral.IsNumeral d.positional ∧
    Numeral.value d.positional = Double.ofMagnitude false d.nearest := by
  have hdigits := @isDigit_of_mem_digitText d
  have hzeros : ∀ k, ∀ c ∈ List.replicate k '0', c.isDigit := by
    intro k c hc
    rw [List.eq_of_mem_replicate hc]
    rfl
  have hvalue : Literal.digitsValue d.digitText = d.digits := Literal.digitsValue_toDigits d.digits
  unfold positional
  obtain ⟨n, k | k⟩ := d
  · simp only
    split
    · rename_i hzero
      refine ⟨.whole (List.cons_ne_nil _ _) (by simp), ?_⟩
      rw [Numeral.value_whole (by simp), hzero]
      refine congrArg (Double.ofMagnitude false) (nearest_eq_of_value_eq ?_)
      simp [value, Literal.digitsValue]
    · have hall := List.forall_mem_append.mpr ⟨@hdigits, hzeros k⟩
      have hne : digitText ⟨n, .ofNat k⟩ ++ List.replicate k '0' ≠ [] :=
        List.append_ne_nil_of_left_ne_nil Nat.toDigits_ne_nil _
      refine ⟨.whole hne hall, ?_⟩
      rw [Numeral.value_whole hall, Literal.digitsValue_append_zeros, hvalue]
      refine congrArg (Double.ofMagnitude false) (nearest_eq_of_value_eq ?_)
      simp [value]
  · simp only
    split
    · rename_i hlong
      refine isNumeral_point ?_ ?_ ?_ ?_
      · exact fun c hc => hdigits (List.mem_of_mem_take hc)
      · exact fun c hc => hdigits (List.mem_of_mem_drop hc)
      · rw [List.length_drop]
        omega
      · rw [List.take_append_drop, hvalue]
    · rename_i hshort
      have hzero : ∀ c ∈ ['0'], c.isDigit := by simp
      refine isNumeral_point hzero ?_ ?_ ?_
      · exact List.forall_mem_append.mpr ⟨hzeros _, @hdigits⟩
      · rw [List.length_append, List.length_replicate]
        omega
      · have hpadded := Literal.digitsValue_zeros_append (digitText ⟨n, .negSucc k⟩)
          (k + 1 - (digitText ⟨n, .negSucc k⟩).length + 1)
        exact hpadded.trans hvalue

end Decimal

namespace Double

/-- A finite double is written as a numeral that denotes its magnitude, behind a minus sign if it is
negative. -/
theorem exists_plain_eq {x : Float} (hx : x.isFinite) :
    ∃ w, Numeral.IsNumeral w ∧ Numeral.value w = ofMagnitude false (magnitude x) ∧
      plain x = if isNegative x then '-' :: w else w := by
  obtain ⟨hnumeral, hvalue⟩ := Decimal.isNumeral_positional (Decimal.shortest (magnitude x))
  have hfinite := isFinite_iff.mp hx
  rw [Decimal.nearest_shortest hfinite] at hvalue
  refine ⟨_, hnumeral, hvalue, ?_⟩
  rw [plain, written]
  simp only [if_neg hfinite.not_gt, if_neg hfinite.ne]

end Double

end Reckoner
