import Reckoner.Proofs.Reading.Visible
import Reckoner.Proofs.Seams

/-!
# Text put into a text

White characters between two lexemes change nothing but the columns behind them
(`parse_insert_whites`): the visible lexemes stay the same, and these and their columns decide a
parse.  White characters may be put anywhere but into a numeral, and the text may be malformed.

From the left, a fault at a lexeme stays the same whatever comes behind it
(`parse_forward_append_of_error`).  The last numeral may become longer there, but where a number may
not stand, no numeral may.
-/

namespace Reckoner

open Lexeme Progress

/-! ## White characters between two lexemes -/

namespace Numeral

variable {x w y : Text}

/-- A seam is one from the right too. -/
lemma IsSeam.reverse (h : IsSeam x y) : IsSeam y.reverse x.reverse := by
  intro b hb a ha hpart
  rw [List.getLast?_reverse] at hb
  rw [List.head?_reverse] at ha
  cases hend : isPart a with
  | false => rfl
  | true =>
    rw [h a ha b hb hend] at hpart
    cases hpart

/-- White characters may be put into a seam. -/
lemma IsSeam.whites_append (h : IsSeam x y) (hw : ∀ c ∈ w, Text.isWhite c) :
    IsSeam x (w ++ y) := by
  cases w with
  | nil => exact h
  | cons c w =>
    intro a _ b hb _
    obtain rfl := Option.some.inj hb
    cases hpart : isPart c with
    | false => rfl
    | true =>
      have hwhite := hw c List.mem_cons_self
      rw [isWhite_of_isPart hpart] at hwhite
      cases hwhite

end Numeral

/-- White characters that are put into a seam are lexemes of their own, between those of the two
texts. -/
lemma Lexeme.split_insert_whites (dir : Direction) {x w y : Text} (hseam : Numeral.IsSeam x y)
    (hw : ∀ c ∈ w, Text.isWhite c) :
    split dir (x ++ w ++ y) = split dir x ++ (w.map white ++ split dir y) := by
  rw [List.append_assoc, split_append (hseam.whites_append hw), split_whites_append dir hw]

/-- The column of a character that stood at `column` before `n` characters were put in at `m`. -/
def columnAfter (m n : Nat) (column : Int) : Int := if column < m then column else column + n

variable {x w y : Text}

/-- From the left, the visible lexemes behind white characters that are put into a seam begin that
many columns further right, and those in front of them begin where they did. -/
lemma sites_insert_whites (hseam : Numeral.IsSeam x y) (hw : ∀ c ∈ w, Text.isWhite c) :
    sites 0 (split .forward (x ++ w ++ y)) = (sites 0 (split .forward (x ++ y))).map
      (Prod.map (columnAfter x.length w.length) id) := by
  have hwidth : width (split .forward x) = x.length := width_split .forward x
  have hfront : (sites 0 (split .forward x)).map (Prod.map (columnAfter x.length w.length) id) =
      sites 0 (split .forward x) := by
    refine (List.map_congr_left fun site hsite => ?_).trans (List.map_id _)
    have hcolumn := (mem_range_of_mem_sites (hasNumerals_split .forward x) hsite).2
    rw [hwidth, Int.zero_add] at hcolumn
    rw [Prod.map, columnAfter, if_pos hcolumn]
    rfl
  have hbehind : (sites (0 + x.length) (split .forward y)).map
      (Prod.map (columnAfter x.length w.length) id) =
        sites (0 + x.length + w.length) (split .forward y) := by
    rw [sites_add _ w.length]
    refine List.map_congr_left fun site hsite => ?_
    have hcolumn := (mem_range_of_mem_sites (hasNumerals_split .forward y) hsite).1
    rw [Int.zero_add] at hcolumn
    rw [Prod.map, columnAfter, if_neg (Int.not_lt.mpr hcolumn)]
    rfl
  rw [split_insert_whites .forward hseam hw, split_append hseam, sites_append 0 _ (_ ++ _),
    sites_append 0, sites_whites_append, hwidth, List.map_append, hfront, hbehind]

/-- White characters in a text that are not put into a numeral change no tokens and no reason why it
is malformed.  From the left, what is wrong shows at the same character. -/
theorem parse_insert_whites (hseam : Numeral.IsSeam x y) (hw : ∀ c ∈ w, Text.isWhite c) :
    ((∃ ts, parse .forward (x ++ y) = .ok ts ∧ parse .forward (x ++ w ++ y) = .ok ts) ∨
        ∃ reason column, parse .forward (x ++ y) = .error (.malformed reason column) ∧
          parse .forward (x ++ w ++ y) = .error (.malformed reason
            (if column < x.length then column else column + w.length))) ∧
      ((∃ ts, parse .backward (x ++ y) = .ok ts ∧ parse .backward (x ++ w ++ y) = .ok ts) ∨
        ∃ reason column column', parse .backward (x ++ y) = .error (.malformed reason column) ∧
          parse .backward (x ++ w ++ y) = .error (.malformed reason column')) := by
  constructor
  · have hmoved := parse_forward_of_sites (sites_insert_whites hseam hw)
    cases hparse : parse .forward (x ++ y) with
    | ok ts =>
      rw [hparse] at hmoved
      exact .inl ⟨ts, rfl, hmoved⟩
    | error f =>
      obtain ⟨column, ⟨reason, rfl⟩, -⟩ := showsIn_of_parse f hparse
      rw [hparse] at hmoved
      exact .inr ⟨reason, column, rfl, hmoved⟩
  · have hvisible : visible (split .backward (x ++ w ++ y).reverse) =
        visible (split .backward (x ++ y).reverse) := by
      have hwhites : ∀ c ∈ w.reverse, Text.isWhite c := fun c hc => hw c (List.mem_reverse.mp hc)
      rw [List.reverse_append, List.reverse_append, ← List.append_assoc, List.reverse_append,
        split_insert_whites .backward hseam.reverse hwhites, split_append hseam.reverse]
      simp [visible, isWhite]
    have hsame := parse_backward_of_visible hvisible
    cases hparse : parse .backward (x ++ y) with
    | ok ts =>
      rw [hparse] at hsame
      exact .inl ⟨ts, rfl, mapError_eq_ok_iff.mp hsame⟩
    | error f =>
      obtain ⟨column, ⟨reason, rfl⟩, -⟩ := showsIn_of_parse f hparse
      cases hparse' : parse .backward (x ++ w ++ y) with
      | ok ts =>
        rw [hparse, hparse'] at hsame
        cases hsame
      | error f' =>
        obtain ⟨column', ⟨reason', rfl⟩, -⟩ := showsIn_of_parse f' hparse'
        rw [hparse, hparse'] at hsame
        cases hsame
        exact .inr ⟨reason, column, column', rfl, rfl⟩

/-- In `(1)2` a number stands where none may; with two white characters behind the first digit, it
still does, two columns further right.  From the right, both texts end with the expression `2`. -/
theorem parse_insert_whites_in_group :
    (parse .forward ['(', '1', ')', '2'] = .error (.malformed .unexpectedNumber 3) ∧
        parse .forward ['(', '1', ' ', '\n', ')', '2'] = .error (.malformed .unexpectedNumber 5)) ∧
      ∃ x, parse .backward ['(', '1', ')', '2'] = .ok [.number x 0] ∧
        parse .backward ['(', '1', ' ', '\n', ')', '2'] = .ok [.number x 0] := by
  have hseam : Numeral.IsSeam ['(', '1'] [')', '2'] := by
    rintro _ ⟨⟩ _ ⟨⟩ _
    rfl
  have hwhite : ∀ c ∈ [' ', '\n'], Text.isWhite c :=
    List.forall_mem_cons.mpr ⟨rfl, List.forall_mem_singleton.mpr rfl⟩
  have hforward : parse .forward (['(', '1'] ++ [')', '2']) =
      .error (.malformed .unexpectedNumber 3) := rfl
  obtain ⟨x, hbackward⟩ : ∃ x, parse .backward (['(', '1'] ++ [')', '2']) = .ok [.number x 0] :=
    ⟨_, rfl⟩
  obtain ⟨⟨_, hok, -⟩ | ⟨_, _, hfault, hmoved⟩, hright⟩ := parse_insert_whites hseam hwhite
  · cases hforward.symm.trans hok
  · cases hforward.symm.trans hfault
    refine ⟨⟨hforward, hmoved⟩, x, hbackward, ?_⟩
    obtain ⟨_, hok, hsame⟩ | ⟨_, _, _, hfault, -⟩ := hright
    · exact hsame.trans (hok.symm.trans hbackward)
    · cases hbackward.symm.trans hfault

/-! ## Text behind a fault -/

namespace Progress

variable {step column : Int} {p : Progress}

/-- A numeral cannot be read where a number may not come next, whatever its digits are. -/
lemma readNumber_eq_error_iff {dir : Direction} {v : Text} {f : Fault} (hv : Numeral.IsNumeral v) :
    p.readNumber dir column v = .error f ↔
      p.require dir .number .unexpectedNumber column = .error f := by
  rw [readNumber, Token.ofNumeral_eq_ok hv]
  cases p.require dir .number .unexpectedNumber column with
  | error g => exact Iff.rfl
  | ok q =>
    constructor
    · rintro ⟨⟩
    · rintro ⟨⟩

/-- A numeral that may not come next is a fault wherever it stands, whatever its digits are. -/
lemma readSite_numeral_eq_error_iff {latest : Progress × Int} {v : Text} {f : Fault}
    (hv : Numeral.IsNumeral v) : readSite step latest (column, .numeral v) = .error f ↔
      latest.1.require .forward .number .unexpectedNumber column = .error f := by
  rw [← readNumber_eq_error_iff hv, readSite, bind_eq_error_iff]
  refine or_iff_left ?_
  rintro ⟨_, -, ⟨⟩⟩

/-- What is missing at the end of a text is a parenthesis or an operand. -/
lemma reason_of_conclude {latest : Progress × Int} {reason : Reason}
    (h : conclude latest = .error (.malformed reason column)) :
    reason = .unmatchedParentheses ∨ reason = .parityMismatch := by
  unfold conclude finish at h
  split at h
  · cases h
    exact .inl rfl
  · split at h
    · cases h
    · cases h
      exact .inr rfl

end Progress

/-- From the left, what is wrong at a lexeme of a text that does not end with a point is wrong there
whatever comes behind the text. -/
theorem parse_forward_append_of_error {s t : Text} {reason : Reason} {column : Int}
    (hreason : reason ∈ [.unexpectedNumber, .unexpectedOperator, .unexpectedOpening,
      .unexpectedClosing, .unknownCharacter])
    (hs : s.getLast? ≠ some '.')
    (h : parse .forward s = .error (.malformed reason column)) :
    parse .forward (s ++ t) = .error (.malformed reason column) := by
  rw [parse_forward_eq_foldlM, bind_eq_error_iff] at h ⊢
  rcases h with hread | ⟨_, -, hend⟩
  swap
  · -- What is missing at the end of a text does not show at a lexeme.
    rcases reason_of_conclude hend with rfl | rfl <;> simp at hreason
  left
  rcases split_forward_append hs t with ⟨more, hmore⟩ | ⟨row, v, w, more, hv, hw⟩
  · rw [hmore, sites_append, List.foldlM_append, hread]
    rfl
  · have hnumeral : Numeral.IsNumeral v := hasNumerals_split .forward s v (by simp [hv])
    have hlonger : Numeral.IsNumeral w := hasNumerals_split .forward (s ++ t) w (by simp [hw])
    rw [hv, sites_append, List.foldlM_append, bind_eq_error_iff] at hread
    rw [hw, sites_append, List.foldlM_append, bind_eq_error_iff]
    refine hread.imp_right fun ⟨latest, hrow, hlast⟩ => ⟨latest, hrow, ?_⟩
    -- The fault is at the last numeral, or there is none.
    rw [sites_cons rfl, List.foldlM_cons, bind_eq_error_iff] at hlast ⊢
    have hsite := hlast.resolve_right nofun
    rw [readSite_numeral_eq_error_iff hnumeral] at hsite
    exact .inl ((readSite_numeral_eq_error_iff hlonger).mpr hsite)

/-- In `1.2 3` the second number stands where none may, and so does the longer one in `1.2 3.4`. -/
theorem parse_forward_append_of_second_number :
    parse .forward ['1', '.', '2', ' ', '3'] = .error (.malformed .unexpectedNumber 4) ∧
      parse .forward ['1', '.', '2', ' ', '3', '.', '4'] =
        .error (.malformed .unexpectedNumber 4) := by
  have hfault : parse .forward ['1', '.', '2', ' ', '3'] =
      .error (.malformed .unexpectedNumber 4) := rfl
  have hend : List.getLast? ['1', '.', '2', ' ', '3'] ≠ some '.' := by decide
  exact ⟨hfault, parse_forward_append_of_error (t := ['.', '4']) (by decide) hend hfault⟩

end Reckoner
