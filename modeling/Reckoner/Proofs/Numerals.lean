import Mathlib.Data.List.TakeWhile
import Reckoner.Fault
import Reckoner.Lexeme.Basic

/-!
# The language of numerals

`IsNumeral` is the language `digit+ | digit* '.' digit+`.  Wherever a numeral is not followed by a
digit or a point, the reader finds exactly this numeral, from the left and from the right
(`reach_written_append`); what the reader finds is a numeral (`isNumeral_take_reach`); and every
numeral denotes a number token (`ofNumeral_eq_ok`), whose value is `Numeral.value`.
-/

namespace Reckoner

/-- Members of a class in front of one that is not in the class are split off exactly. -/
lemma span_append {α : Type} {p : α → Bool} {xs : List α} (hx : ∀ a ∈ xs, p a) (ys : List α)
    (hy : ∀ a ∈ ys.head?, p a = false) :
    (xs ++ ys).takeWhile p = xs ∧ (xs ++ ys).dropWhile p = ys := by
  rw [List.takeWhile_append_of_pos hx, List.dropWhile_append_of_pos hx]
  cases ys with
  | nil => simp
  | cons y ys => simp [hy y rfl]

namespace Numeral

/-- The numerals: digits, or a point with at least one digit behind it and any number before. -/
inductive IsNumeral : Text → Prop
  | whole {ds : Text} (hne : ds ≠ []) (hds : ∀ c ∈ ds, c.isDigit) : IsNumeral ds
  | point {ds ps : Text} (hds : ∀ c ∈ ds, c.isDigit) (hne : ps ≠ []) (hps : ∀ c ∈ ps, c.isDigit) :
      IsNumeral (ds ++ '.' :: ps)

/-- A numeral is not empty. -/
lemma IsNumeral.ne_nil {w : Text} (hw : IsNumeral w) : w ≠ [] := by
  cases hw with
  | whole hne _ => exact hne
  | point => simp

/-- Digits and points, the characters of numerals. -/
def isPart (c : Char) : Bool := c.isDigit || c == '.'

/-- The number that a numeral writes, as a double: its digits as a whole number, divided by ten for
each digit behind the point, and rounded to the nearest. -/
def value (t : Text) : Float :=
  Double.ofMagnitude false (Decimal.nearest
    ⟨Literal.digitsValue (t.filter Char.isDigit), -((t.dropWhile Char.isDigit).drop 1).length⟩)

/-! ## Reading a numeral -/

/-- A point is no digit. -/
lemma isDigit_point : Char.isDigit '.' = false := rfl

/-- Where a text begins with another character, there is no numeral. -/
lemma reach_cons_eq_zero (dir : Direction) {c : Char} (h : isPart c = false) (cs : Text) :
    reach dir (c :: cs) = 0 := by
  simp only [isPart, Bool.or_eq_false_iff, beq_eq_false_iff_ne] at h
  cases dir with
  | forward =>
    rw [reach, reachForward, List.takeWhile_cons_of_neg (by simp [h.1]),
      List.dropWhile_cons_of_neg (by simp [h.1])]
    split
    · rename_i heq
      exact absurd (List.cons.inj heq).1 h.2
    · rfl
  | backward => simp [reach, reachBackward, h.1]

/-- Digits, and a text that begins with neither a digit nor a point: the digits are the numeral. -/
lemma reach_whole (dir : Direction) {ds t : Text} (hds : ∀ c ∈ ds, c.isDigit)
    (ht : ∀ c ∈ t.head?, isPart c = false) : reach dir (ds ++ t) = ds.length := by
  have hdigit : ∀ c ∈ t.head?, c.isDigit = false := by
    intro c hc
    exact (Bool.or_eq_false_iff.mp (ht c hc)).1
  have hpoint : ∀ rest, t ≠ '.' :: rest := by
    rintro rest rfl
    exact absurd (ht '.' rfl) (by decide)
  obtain ⟨htake, hdrop⟩ := span_append hds t hdigit
  cases dir with
  | forward =>
    rw [reach, reachForward, htake, hdrop]
    split
    · exact absurd rfl (hpoint _)
    · rfl
  | backward =>
    rw [reach, reachBackward, htake, hdrop]
    split
    · simp_all
    · split
      · exact absurd rfl (hpoint _)
      · rfl

/-- Digits, a point and at least one digit, read from the left. -/
lemma reachForward_point {ds ps t : Text} (hds : ∀ c ∈ ds, c.isDigit) (hne : ps ≠ [])
    (hps : ∀ c ∈ ps, c.isDigit) (ht : ∀ c ∈ t.head?, isPart c = false) :
    reachForward (ds ++ '.' :: (ps ++ t)) = ds.length + 1 + ps.length := by
  obtain ⟨htake, hdrop⟩ := span_append hds ('.' :: (ps ++ t)) (by simp [isDigit_point])
  obtain ⟨hplaces, -⟩ := span_append hps t fun c hc => (Bool.or_eq_false_iff.mp (ht c hc)).1
  simp [reachForward, htake, hdrop, hplaces, hne]

/-- At least one digit, a point and digits: such a text, read from the right, is a numeral. -/
lemma reachBackward_point {ds ps t : Text} (hds : ∀ c ∈ ds, c.isDigit) (hne : ps ≠ [])
    (hps : ∀ c ∈ ps, c.isDigit) (ht : ∀ c ∈ t.head?, isPart c = false) :
    reachBackward (ps ++ '.' :: (ds ++ t)) = ps.length + 1 + ds.length := by
  obtain ⟨htake, hdrop⟩ := span_append hps ('.' :: (ds ++ t)) (by simp [isDigit_point])
  obtain ⟨hplaces, -⟩ := span_append hds t fun c hc => (Bool.or_eq_false_iff.mp (ht c hc)).1
  simp [reachBackward, htake, hdrop, hplaces, hne]

/-- A numeral that neither a digit nor a point follows is read as a whole, in either direction. -/
theorem reach_written_append (dir : Direction) {w t : Text} (hw : IsNumeral w)
    (ht : ∀ c ∈ t.head?, isPart c = false) :
    reach dir (Lexeme.written dir w ++ t) = w.length := by
  cases hw with
  | whole hne hds =>
    cases dir with
    | forward => exact reach_whole .forward hds ht
    | backward =>
      have hreverse : ∀ c ∈ w.reverse, c.isDigit := by simpa using hds
      have hlength : w.reverse.length = w.length := List.length_reverse
      rw [← hlength]
      exact reach_whole .backward hreverse ht
  | @point ds ps hds hne hps =>
    cases dir with
    | forward =>
      have h := reachForward_point hds hne hps ht
      simp only [Lexeme.written, id, reach, List.append_assoc, List.cons_append, h,
        List.length_append, List.length_cons]
      omega
    | backward =>
      have hplaces : ∀ c ∈ ps.reverse, c.isDigit := by simpa using hps
      have hwhole : ∀ c ∈ ds.reverse, c.isDigit := by simpa using hds
      have h := reachBackward_point hwhole (by simpa using hne) hplaces ht
      simp only [List.length_reverse] at h
      simp only [Lexeme.written, reach, List.reverse_append, List.reverse_cons, List.append_assoc,
        List.cons_append, List.nil_append, h, List.length_append, List.length_cons]
      omega

/-! ## What is read is a numeral -/

/-- A leading part of a text that is cut out by a class is what its length takes. -/
lemma take_length_takeWhile (p : Char → Bool) (cs : Text) :
    cs.take (cs.takeWhile p).length = cs.takeWhile p :=
  (List.prefix_iff_eq_take.mp (List.takeWhile_prefix p)).symm

/-- What is left of a text behind a leading part that is cut out by a class, where the class may go
on in another text behind it. -/
lemma drop_length_takeWhile_append (p : Char → Bool) (cs ds : Text) :
    cs.drop ((cs ++ ds).takeWhile p).length = cs.dropWhile p := by
  induction cs with
  | nil => exact List.drop_nil
  | cons c cs ih =>
    by_cases hc : p c
    · rwa [List.cons_append, List.takeWhile_cons_of_pos hc, List.dropWhile_cons_of_pos hc]
    · rw [List.cons_append, List.takeWhile_cons_of_neg hc, List.dropWhile_cons_of_neg hc]
      rfl

/-- Leading digits, a point and the digits behind it, as the part of the text that they cover. -/
lemma take_point {cs rest : Text} (h : cs.dropWhile Char.isDigit = '.' :: rest) :
    cs.take ((cs.takeWhile Char.isDigit).length + 1 + (rest.takeWhile Char.isDigit).length) =
      cs.takeWhile Char.isDigit ++ '.' :: rest.takeWhile Char.isDigit := by
  have hcs : cs = cs.takeWhile Char.isDigit ++ '.' :: rest := by
    rw [← h, List.takeWhile_append_dropWhile]
  refine (congrArg (List.take _) hcs).trans ?_
  rw [Nat.add_assoc, List.take_length_add_append, Nat.add_comm 1, List.take_succ_cons,
    take_length_takeWhile]

/-- What is read is part of the text. -/
lemma reach_le_length (dir : Direction) (cs : Text) : reach dir cs ≤ cs.length := by
  have hlength : (cs.takeWhile Char.isDigit).length + (cs.dropWhile Char.isDigit).length =
      cs.length := by
    rw [← List.length_append, List.takeWhile_append_dropWhile]
  cases dir with
  | forward =>
    simp only [reach, reachForward]
    split
    · rename_i rest hrest
      have hplaces := (List.takeWhile_prefix Char.isDigit (l := rest)).length_le
      rw [hrest, List.length_cons] at hlength
      split <;> omega
    · omega
  | backward =>
    simp only [reach, reachBackward]
    split
    · exact Nat.zero_le _
    · split
      · rename_i rest hrest
        have hwhole := (List.takeWhile_prefix Char.isDigit (l := rest)).length_le
        rw [hrest, List.length_cons] at hlength
        omega
      · omega

/-- From the right, a numeral has all digits at its place: none is left behind it. -/
lemma isDigit_head_drop_reachBackward {cs : Text} (h : reachBackward cs ≠ 0) :
    ∀ c ∈ (cs.drop (reachBackward cs)).head?, c.isDigit = false := by
  have hbehind : ∀ ds : Text, ∀ c ∈ (ds.dropWhile Char.isDigit).head?, c.isDigit = false := by
    intro ds c hc
    have hhead := List.head?_dropWhile_not Char.isDigit ds
    rwa [hc] at hhead
  have hdigits : ∀ ds : Text, ds.drop (ds.takeWhile Char.isDigit).length =
      ds.dropWhile Char.isDigit := by
    intro ds
    simpa using drop_length_takeWhile_append Char.isDigit ds []
  simp only [reachBackward] at h ⊢
  split at h
  · exact absurd rfl h
  · rename_i hlast
    simp only [hlast, if_false]
    split
    · rename_i rest hrest
      rw [Nat.add_assoc, ← List.drop_drop, hdigits, hrest, Nat.add_comm 1, List.drop_succ_cons,
        hdigits]
      exact hbehind rest
    · rw [hdigits]
      exact hbehind cs

/-- What is read has as many characters as are read. -/
lemma length_written_take_reach (dir : Direction) (cs : Text) :
    (Lexeme.written dir (cs.take (reach dir cs))).length = reach dir cs := by
  cases dir <;> simp [Lexeme.written, reach_le_length]

/-- What the reader finds in a direction is a numeral. -/
theorem isNumeral_take_reach (dir : Direction) {cs : Text} (h : reach dir cs ≠ 0) :
    IsNumeral (Lexeme.written dir (cs.take (reach dir cs))) := by
  have hds : ∀ c ∈ cs.takeWhile Char.isDigit, c.isDigit := fun c => List.mem_takeWhile_imp
  cases dir with
  | forward =>
    simp only [reach, reachForward, Lexeme.written, id] at h ⊢
    split at h
    · rename_i rest hrest
      have hps : ∀ c ∈ rest.takeWhile Char.isDigit, c.isDigit := fun c => List.mem_takeWhile_imp
      split
      · rename_i hzero
        rw [take_length_takeWhile]
        exact .whole (by simpa [hzero] using h) hds
      · rename_i hplaces
        rw [take_point hrest]
        exact .point hds (by simpa using hplaces) hps
    · rw [take_length_takeWhile]
      exact .whole (by simpa using h) hds
  | backward =>
    simp only [reach, reachBackward, Lexeme.written] at h ⊢
    split at h
    · exact absurd rfl h
    · rename_i hlast
      have hne : cs.takeWhile Char.isDigit ≠ [] := by simpa using hlast
      simp only [hlast, if_false]
      split
      · rename_i rest hrest
        have hps : ∀ c ∈ rest.takeWhile Char.isDigit, c.isDigit := fun c => List.mem_takeWhile_imp
        rw [take_point hrest, List.reverse_append, List.reverse_cons, List.append_assoc]
        exact .point (by simpa using hps) (by simpa using hne) (by simpa using hds)
      · rw [take_length_takeWhile]
        exact .whole (by simpa using hne) (by simpa using hds)

/-! ## The value of a numeral -/

/-- The characters of a numeral are digits and points. -/
lemma IsNumeral.isPart {w : Text} (hw : IsNumeral w) : ∀ c ∈ w, isPart c := by
  cases hw with
  | whole hne hds =>
    intro c hc
    simp [Numeral.isPart, hds c hc]
  | point hds hne hps =>
    intro c hc
    rcases List.mem_append.mp hc with hc | hc
    · simp [Numeral.isPart, hds c hc]
    · rcases List.mem_cons.mp hc with rfl | hc
      · rfl
      · simp [Numeral.isPart, hps c hc]

/-- The code of a digit lies between those of `0` and `9`. -/
lemma toNat_of_isDigit {c : Char} (h : c.isDigit) : 48 ≤ c.toNat ∧ c.toNat ≤ 57 := by
  simp only [Char.isDigit, Bool.and_eq_true, decide_eq_true_eq] at h
  exact ⟨UInt32.le_iff_toNat_le.mp h.1, UInt32.le_iff_toNat_le.mp h.2⟩

/-- The ten plain digits and the point are left as they are. -/
lemma plainDigit_of_isPart {c : Char} (h : isPart c) : Text.plainDigit c = c := by
  rcases Bool.or_eq_true _ _ |>.mp h with h | h
  · obtain ⟨hlo, hhi⟩ := toNat_of_isDigit h
    have hdigit : Text.digit? c = some (c.toNat - 48) := by
      rw [Text.digit?, Text.zeros, List.find?_cons_of_pos (by simp; omega)]
      rfl
    rw [Text.plainDigit, hdigit]
    show Char.ofNat (48 + (c.toNat - 48)) = c
    rw [Nat.add_sub_cancel' hlo, Char.ofNat_toNat]
  · rw [eq_of_beq h]
    decide

/-- Digits and points are no spacing. -/
lemma isSpacing_of_isPart {c : Char} (h : isPart c) : Text.isSpacing c = false := by
  rcases Bool.or_eq_true _ _ |>.mp h with h | h
  · obtain ⟨hlo, hhi⟩ := toNat_of_isDigit h
    simp only [Text.isSpacing, Bool.or_eq_false_iff, Bool.and_eq_false_iff, decide_eq_false_iff_not,
      beq_eq_false_iff_ne]
    omega
  · rw [eq_of_beq h]
    decide

/-- A text without characters of a class has none to be stripped. -/
lemma strip_eq_self {p : Char → Bool} {t : Text} (h : ∀ c ∈ t, p c = false) :
    Text.strip p t = t := by
  have hdrop : ∀ s : Text, (∀ c ∈ s, p c = false) → s.dropWhile p = s := by
    intro s hs
    cases s with
    | nil => rfl
    | cons c s => rw [List.dropWhile_cons_of_neg (by simp [hs c (by simp)])]
  rw [Text.strip, hdrop t h, hdrop t.reverse (by simpa using h), List.reverse_reverse]

/-- Where there is no underscore, there is none to be taken away. -/
lemma joinDigits?_eq_some {t : Text} (h : '_' ∉ t) (after : Bool) :
    Literal.joinDigits? after t = some t := by
  fun_induction Literal.joinDigits? after t with
  | case1 => rfl
  | case2 => simp at h
  | case3 => simp at h
  | case4 => simp at h
  | case5 after c cs _ _ ih => simp [ih (List.not_mem_of_not_mem_cons h)]

/-- A text of digits and points is bare. -/
lemma bare?_eq_some {t : Text} (h : ∀ c ∈ t, isPart c) : Literal.bare? t = some t := by
  have hstrip : Text.strip (fun c => Text.isSpacing c && !Text.isSeparator c) t = t := by
    apply strip_eq_self
    intro c hc
    rw [isSpacing_of_isPart (h c hc), Bool.false_and]
  have hmap : t.map Text.plainDigit = t :=
    (List.map_congr_left fun c hc => plainDigit_of_isPart (h c hc)).trans (List.map_id' t)
  have hline : '_' ∉ t := by
    intro hc
    exact absurd (h '_' hc) (by decide)
  rw [Literal.bare?, hstrip, hmap, joinDigits?_eq_some hline]

/-- A numeral as a decimal: all its digits, and the number of those behind the point. -/
lemma decimal?_eq_some {w : Text} (hw : IsNumeral w) :
    Literal.decimal? w = some ⟨Literal.digitsValue (w.filter Char.isDigit),
      -((w.dropWhile Char.isDigit).drop 1).length⟩ := by
  cases hw with
  | whole hne hds =>
    obtain ⟨htake, hdrop⟩ := span_append hds [] (by simp)
    rw [List.append_nil] at htake hdrop
    simp [Literal.decimal?, htake, hdrop, hne, Literal.exponent?, List.filter_eq_self.mpr hds]
  | @point ds ps hds hne hps =>
    obtain ⟨htake, hdrop⟩ := span_append hds ('.' :: ps) (by simp [isDigit_point])
    obtain ⟨hplaces, hrest⟩ := span_append hps [] (by simp)
    rw [List.append_nil] at hplaces hrest
    simp [Literal.decimal?, htake, hdrop, hplaces, hrest, hne, Literal.exponent?,
      List.filter_eq_self.mpr hds, List.filter_eq_self.mpr hps, isDigit_point]

/-- Digits and points have no case. -/
lemma toLower_of_isPart {c : Char} (h : isPart c) : c.toLower = c := by
  rcases Bool.or_eq_true _ _ |>.mp h with h | h
  · have hhi : c.toNat ≤ 57 := (toNat_of_isDigit h).2
    have hletter : ¬ (c.val ≥ 'A'.val ∧ c.val ≤ 'Z'.val) := by
      rintro ⟨hletter, -⟩
      have : 65 ≤ c.toNat := UInt32.le_iff_toNat_le.mp hletter
      omega
    exact dif_neg hletter
  · rw [eq_of_beq h]
    rfl

/-- A numeral is no name, in letters of either case. -/
lemma ofList_toLower_ne {w : Text} (hw : IsNumeral w) (c : Char) (cs : Text)
    (hc : isPart c = false) : String.ofList (w.map Char.toLower) ≠ String.ofList (c :: cs) := by
  intro h
  have hmap : w.map Char.toLower = w :=
    (List.map_congr_left fun d hd => toLower_of_isPart (hw.isPart d hd)).trans (List.map_id' w)
  have hw' : w = c :: cs := hmap ▸ String.ofList_injective h
  have := hw.isPart c (by simp [hw'])
  simp [hc] at this

/-- The magnitude of a numeral is that of its decimal. -/
lemma magnitude?_eq_some {w : Text} (hw : IsNumeral w) :
    Literal.magnitude? w = (Literal.decimal? w).map Decimal.nearest := by
  have hinf := ofList_toLower_ne hw 'i' ['n', 'f'] rfl
  have hinfinity := ofList_toLower_ne hw 'i' ['n', 'f', 'i', 'n', 'i', 't', 'y'] rfl
  have hnan := ofList_toLower_ne hw 'n' ['a', 'n'] rfl
  exact (if_neg (not_or.mpr ⟨hinf, hinfinity⟩)).trans (if_neg hnan)

/-- The value of a numeral is the double that its text denotes. -/
lemma double?_eq_some {w : Text} (hw : IsNumeral w) : Literal.double? w = some (value w) := by
  have hsign : Literal.signed w = (false, w) := by
    unfold Literal.signed
    split
    · exact absurd (hw.isPart '-' (by simp)) (by decide)
    · exact absurd (hw.isPart '+' (by simp)) (by decide)
    · rfl
  simp [Literal.double?, bare?_eq_some hw.isPart, hsign, magnitude?_eq_some hw,
    decimal?_eq_some hw, value]

end Numeral

/-- Every numeral denotes a number token, with the value of the numeral. -/
theorem Token.ofNumeral_eq_ok {w : Text} (hw : Numeral.IsNumeral w) :
    Token.ofNumeral w = .ok (.number (Numeral.value w) 0) := by
  rw [Token.ofNumeral, Numeral.double?_eq_some hw]

end Reckoner
