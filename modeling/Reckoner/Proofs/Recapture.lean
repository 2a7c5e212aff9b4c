import Reckoner.Proofs.LookAhead
import Reckoner.Proofs.Seams

/-!
# What is found is found again

At the end of what has been found the same is found again, and in its own text alone the whole text
is found (`extract_again`).

Look-ahead is done after one round: it stops in front of a character that is no closing parenthesis,
and from there it goes no further (`Span.edge_edge`).  In the text alone the scan meets other
surroundings at both ends.  What was taken in does not depend on what stands in front of it, for its
row of lexemes is found again in its own text (`Span.Captures.alone`).  And the blanks at its
beginning end at a seam: without them, the rest has the same lexemes and is still taken in as a
whole (`Span.Captures.of_blanks_append`).
-/

namespace Reckoner

open Lexeme Grammar

namespace Span

variable {blanks : Bool} {row : List Lexeme} {u w gap : Text}

/-- Look-ahead goes no further from where it ended. -/
lemma edge_edge (t : Text) (pos : Int) (ahead blanks : Bool) :
    edge t (edge t pos ahead blanks) ahead blanks = edge t pos ahead blanks := by
  by_cases hkept : ahead → t.at? pos ≠ some ')'
  · rw [edge_eq_self hkept, edge_eq_self hkept]
  · simp only [not_forall, not_not] at hkept
    obtain ⟨rfl, hat⟩ := hkept
    obtain ⟨x, run, y, rfl, rfl, hedge, hstop, -⟩ := exists_run_of_at? blanks hat
    rw [hedge]
    exact edge_append hstop

namespace Captures

/-- What is taken in behind another text is taken in alone. -/
lemma alone (h : Captures blanks u w row) : Captures blanks [] w row := by
  obtain ⟨hknown, hchain⟩ := h.isKnown_and_isChain
  have htext : joined .backward row = w.reverse := by
    rw [← h.joined_eq, ← reverse_joined_backward, List.reverse_reverse]
  have hsplit : split .backward w.reverse = row ++ [] := by
    rw [← htext, split_joined .backward hknown hchain, List.append_nil]
  exact ⟨h.ne_nil, hsplit, h.foldlM_eq, by simp⟩

/-- Without blanks at its beginning, what is taken in alone is still taken in as a whole. -/
lemma of_blanks_append (h : Captures blanks [] (gap ++ w) row) (hne : w ≠ [])
    (hgap : ∀ c ∈ gap, blanks && Text.isBlank c) :
    Captures blanks [] w (split .backward w.reverse) := by
  have hturned : ∀ c ∈ gap.reverse, blanks && Text.isBlank c := by simpa using hgap
  have hpart : ∀ c ∈ gap.reverse, Numeral.isPart c = false :=
    fun c hc => (Text.isPart_and_ne_of_isBlank (Bool.and_eq_true_iff.mp (hturned c hc)).2).1
  have hnone : gap.reverse.count ')' = 0 :=
    List.count_eq_zero.mpr fun hmem => absurd (hturned _ hmem) (by simp [Text.isBlank])
  have hseam : Numeral.IsSeam w.reverse gap.reverse :=
    fun _ _ c hc _ => hpart c (List.mem_of_mem_head? hc)
  have hblanks : split .backward gap.reverse = gap.reverse.map ofChar := by
    simpa [split, splitFrom] using split_chars_append .backward hpart []
  have hrow : split .backward w.reverse ++ gap.reverse.map ofChar = row := by
    rw [← hblanks, ← split_append hseam, ← List.reverse_append]
    exact h.split_eq.trans (List.append_nil row)
  -- The blanks are taken in last, and they keep what waits.
  have htaken := h.foldlM_eq
  rw [← hrow, List.foldlM_append] at htaken
  obtain ⟨left, hleft, hrest⟩ := Option.bind_eq_some_iff.mp htaken
  rw [foldlM_takeIn_run fun c hc => .inr (hturned c hc), hnone] at hrest
  obtain rfl := Option.some.inj hrest
  exact ⟨hne, (List.append_nil _).symm, hleft, by simp⟩

/-- What is taken in is found at the end of its own text without the blanks at its beginning. -/
lemma find?_dropWhile (h : Captures blanks u w row) (hne : w.dropWhile Text.isBlank ≠ [])
    (ahead : Bool) :
    find? (w.dropWhile Text.isBlank) (w.dropWhile Text.isBlank).length ahead blanks =
      some ⟨0, (w.dropWhile Text.isBlank).length⟩ := by
  have hgap := h.and_isBlank_of_mem (v := [])
  rw [List.append_nil] at hgap
  have hparts : Captures blanks [] (w.takeWhile Text.isBlank ++ w.dropWhile Text.isBlank) row := by
    rw [List.takeWhile_append_dropWhile]
    exact h.alone
  have htrimmed : (w.dropWhile Text.isBlank).takeWhile Text.isBlank = [] :=
    List.takeWhile_eq_nil_iff.mpr (List.dropWhile_get_zero_not Text.isBlank w)
  have hedge : edge (w.dropWhile Text.isBlank ++ []) (w.dropWhile Text.isBlank).length ahead
      blanks = (w.dropWhile Text.isBlank).length := edge_append (by simp)
  rw [List.append_nil] at hedge
  refine find?_eq_some_iff.mpr ⟨[], _, [], _, ?_, hedge, hparts.of_blanks_append hne hgap, ?_⟩
  · rw [List.nil_append, List.append_nil]
  · rw [List.append_nil, htrimmed]
    rfl

end Captures

/-- A span inside a text has as many characters as its bounds say. -/
lemma length_textOf {t : Text} {s : Span} (h : s.stop ≤ t.length) :
    (s.textOf t).length = s.stop - s.start := by
  rw [textOf, Text.slice_natCast, List.length_drop, List.length_take_of_le h]

end Span

/-- At the end of what has been found the same is found again, with the same switches; and unless it
is empty, at the end of its own text alone the whole of this text is found. -/
theorem extract_again {t : Text} {pos : Option Int} {ahead blanks : Option Bool} {s : Span}
    (h : extract t pos ahead blanks = some s) :
    extract t (some s.stop) ahead blanks = some s ∧
      (s.start < s.stop →
        extract (s.textOf t) (some (s.textOf t).length) ahead blanks =
          some ⟨0, s.stop - s.start⟩) := by
  obtain ⟨u, w, v, row, rfl, hedge, hrow, rfl⟩ := Span.find?_eq_some_iff.mp h
  constructor
  · refine Span.find?_eq_some_iff.mpr ⟨u, w, v, row, rfl, ?_, hrow, rfl⟩
    have hagain := Span.edge_edge (u ++ w ++ v) (pos.getD (u ++ w ++ v).length)
      (ahead.getD Settings.standard.lookAhead) (blanks.getD Settings.standard.blanks)
    rw [hedge] at hagain
    exact hagain
  · intro hlt
    have hinside : (u ++ w).length ≤ (u ++ w ++ v).length :=
      (List.prefix_append (u ++ w) v).length_le
    have hlength : (w.dropWhile Text.isBlank).length =
        (u ++ w).length - (u.length + ((w ++ v).takeWhile Text.isBlank).length) := by
      rw [← Span.textOf_captured u w v]
      exact Span.length_textOf hinside
    have hne : w.dropWhile Text.isBlank ≠ [] := by
      apply List.ne_nil_of_length_pos
      rw [hlength]
      exact Nat.sub_pos_of_lt hlt
    rw [← hlength, Span.textOf_captured]
    exact hrow.find?_dropWhile hne _

/-- Behind `1.`, the expression `2.3*(4)` is found in front of its closing parenthesis and behind
it, and in its own text. -/
theorem extract_again_behind_point :
    extract ['1', '.', '2', '.', '3', '*', '(', '4', ')', 'y'] (some 8) none none =
        some ⟨2, 9⟩ ∧
      extract ['1', '.', '2', '.', '3', '*', '(', '4', ')', 'y'] (some 9) none none =
        some ⟨2, 9⟩ ∧
      extract ['2', '.', '3', '*', '(', '4', ')'] (some 7) none none = some ⟨0, 7⟩ := by
  have hfound : extract ['1', '.', '2', '.', '3', '*', '(', '4', ')', 'y'] (some 8) none none =
      some ⟨2, 9⟩ := rfl
  obtain ⟨hagain, halone⟩ := extract_again hfound
  exact ⟨hfound, hagain, halone (by decide)⟩

end Reckoner
