import Reckoner.Cursor.Basic
import Reckoner.Proofs.Numerals

/-!
# A cursor takes the longest numeral

From the left a numeral is looked for in front of a point and behind it, and a point with nothing
behind it is given back; from the right the digits come first, and a point counts only if there are
some.  Both readers know the same language: what they take is the longest numeral that begins, or
that ends, at their place, and they take nothing only where there is none (`Cursor.numeral_longest`).
Hence a numeral between characters that are neither digits nor points is taken from both ends as
the same part of the text.

That what is taken is a numeral is known (`Numeral.isNumeral_take_reach`).  That no numeral is
longer follows from the two forms of a numeral: its leading digits are the leading digits of the
text, or a part of them (`Numeral.length_le_reach`).
-/

namespace Reckoner

namespace Numeral

variable {w cs ds : Text} {dir : Direction}

/-! ## No numeral is longer -/

/-- Members of a class at the front of a text are no more than all of them there. -/
lemma length_le_takeWhile {p : Char → Bool} (hds : ∀ c ∈ ds, p c) (h : ds <+: cs) :
    ds.length ≤ (cs.takeWhile p).length := by
  obtain ⟨rest, rfl⟩ := h
  rw [List.takeWhile_append_of_pos hds, List.length_append]
  exact Nat.le_add_right _ _

/-- Leading digits are part of what is read from the left. -/
lemma length_takeWhile_le_reachForward (cs : Text) :
    (cs.takeWhile Char.isDigit).length ≤ reachForward cs := by
  simp only [reachForward]
  split
  · split <;> omega
  · exact le_rfl

/-- Leading digits are part of what is read from the right. -/
lemma length_takeWhile_le_reachBackward (cs : Text) :
    (cs.takeWhile Char.isDigit).length ≤ reachBackward cs := by
  simp only [reachBackward]
  split
  · exact Nat.le_of_eq ‹_›
  · split <;> omega

/-- From the left, no numeral at the front of a text is longer than what is read. -/
lemma IsNumeral.length_le_reachForward (hw : IsNumeral w) (h : w <+: cs) :
    w.length ≤ reachForward cs := by
  cases hw with
  | whole _ hds => exact (length_le_takeWhile hds h).trans (length_takeWhile_le_reachForward cs)
  | @point ds ps hds hne hps =>
    obtain ⟨rest, rfl⟩ := h
    rw [List.append_assoc, List.cons_append]
    obtain ⟨htake, hdrop⟩ := span_append hds ('.' :: (ps ++ rest)) (by simp [isDigit_point])
    -- The digits behind the point may go on in the rest of the text.
    have hplaces : ps.length ≤ ((ps ++ rest).takeWhile Char.isDigit).length :=
      length_le_takeWhile hps (List.prefix_append ps rest)
    have hsome : 0 < ps.length := List.length_pos_iff.mpr hne
    have hpoint : ((ps ++ rest).takeWhile Char.isDigit).length ≠ 0 := by omega
    simp only [reachForward, htake, hdrop, if_neg hpoint, List.length_append, List.length_cons]
    omega

/-- From the right, no numeral at the place of the reader is longer than what is read. -/
lemma IsNumeral.length_le_reachBackward (hw : IsNumeral w) (h : w.reverse <+: cs) :
    w.length ≤ reachBackward cs := by
  cases hw with
  | whole _ hds =>
    have hturned : ∀ c ∈ w.reverse, c.isDigit := by simpa using hds
    rw [← List.length_reverse]
    exact (length_le_takeWhile hturned h).trans (length_takeWhile_le_reachBackward cs)
  | @point ds ps hds hne hps =>
    obtain ⟨rest, rfl⟩ := h
    have hlast : ∀ c ∈ ps.reverse, c.isDigit := by simpa using hps
    have hfirst : ∀ c ∈ ds.reverse, c.isDigit := by simpa using hds
    obtain ⟨htake, hdrop⟩ :=
      span_append hlast ('.' :: (ds.reverse ++ rest)) (by simp [isDigit_point])
    have hwhole : ds.reverse.length ≤ ((ds.reverse ++ rest).takeWhile Char.isDigit).length :=
      length_le_takeWhile hfirst (List.prefix_append _ rest)
    have hsome : ps.reverse.length ≠ 0 := by simpa using hne
    have htext : (ds ++ '.' :: ps).reverse ++ rest =
        ps.reverse ++ '.' :: (ds.reverse ++ rest) := by simp
    rw [List.length_reverse] at hwhole
    simp only [reachBackward, htext, htake, hdrop, if_neg hsome]
    simp only [List.length_append, List.length_cons, List.length_reverse]
    omega

/-- No numeral at the place of the reader is longer than what is read. -/
theorem length_le_reach (hw : IsNumeral w) (h : Lexeme.written dir w <+: cs) :
    w.length ≤ reach dir cs := by
  cases dir with
  | forward => exact hw.length_le_reachForward h
  | backward => exact hw.length_le_reachBackward h

/-- Something is read exactly where a numeral stands. -/
lemma reach_ne_zero_iff : reach dir cs ≠ 0 ↔ ∃ w, IsNumeral w ∧ Lexeme.written dir w <+: cs := by
  constructor
  · intro h
    refine ⟨_, isNumeral_take_reach dir h, ?_⟩
    rw [Lexeme.written_written]
    exact List.take_prefix _ cs
  · rintro ⟨w, hw, h⟩
    have hpositive : 0 < w.length := List.length_pos_iff.mpr hw.ne_nil
    have hlongest := length_le_reach hw h
    omega

/-- A numeral that stands at a place and is the longest of those that do. -/
structure IsLongest (stands : Text → Prop) (w : Text) : Prop where
  isNumeral : IsNumeral w
  standing : stands w
  length_le : ∀ v, IsNumeral v → stands v → v.length ≤ w.length

/-- What is read, if anything is, is the longest numeral at the place of the reader. -/
theorem isLongest_take_reach (h : reach dir cs ≠ 0) :
    IsLongest (Lexeme.written dir · <+: cs) (Lexeme.written dir (cs.take (reach dir cs))) where
  isNumeral := isNumeral_take_reach dir h
  standing := by
    rw [Lexeme.written_written]
    exact List.take_prefix _ cs
  length_le := by
    intro v hv hstanding
    rw [length_written_take_reach]
    exact length_le_reach hv hstanding

end Numeral

namespace Cursor

open Numeral

variable {t : Text} {a b : Nat} {start : Int}

/-! ## At a cursor -/

/-- Inside a text, from the left, a cursor passes over what is read in front of it. -/
lemma numeral_forward_eq (hb : b ≤ t.length) :
    numeral .forward ⟨t, a, start, b⟩ =
      (.ok (reach .forward (t.slice a b) != 0),
        ⟨t, (a + reach .forward (t.slice a b) : Nat), a, b⟩) := by
  have hinside : ¬ t.length < b := Nat.not_lt.mpr hb
  have hnonneg : ¬ (a : Int) < 0 := Int.not_lt.mpr (Int.natCast_nonneg a)
  have hseen : ahead ⟨t, a, a, b⟩ = t.slice a b := by
    rw [Text.slice_natCast, List.drop_take]
    simp [ahead, hnonneg]
  simp [numeral, numeralForward, hseen, runsPast, hinside]

/-- Inside a text, from the right, a cursor stays behind what is read and marks its beginning. -/
lemma numeral_backward_eq (ha : a ≤ t.length) :
    numeral .backward ⟨t, a, start, b⟩ =
      if reach .backward (t.take a).reverse = 0 then (.ok false, ⟨t, a, start, b⟩)
      else (.ok true, ⟨t, a, a - reach .backward (t.take a).reverse, b⟩) := by
  have hinside : ¬ (t.length : Int) < a := by omega
  rw [numeral, numeralBackward, if_neg hinside]
  rfl

/-- What has been read from the left lies between the start and the cursor. -/
lemma slice_forward {n : Nat} (hn : n ≤ (t.slice a b).length) :
    t.slice a (a + n : Nat) = (t.slice a b).take n := by
  rw [Text.slice_natCast, List.drop_take, List.length_take] at hn
  rw [Text.slice_natCast, Text.slice_natCast, List.drop_take, List.drop_take, List.take_take,
    Nat.add_sub_cancel_left, Nat.min_eq_left (hn.trans (Nat.min_le_left _ _))]

/-- What has been read from the right lies between the start and the cursor. -/
lemma slice_backward {n : Nat} (ha : a ≤ t.length) (hn : n ≤ (t.take a).reverse.length) :
    t.slice (a - n) a = ((t.take a).reverse.take n).reverse := by
  rw [List.length_reverse, List.length_take_of_le ha] at hn
  rw [← Int.natCast_sub hn, Text.slice_natCast, List.take_reverse, List.reverse_reverse,
    List.length_take_of_le ha]

/-- Behind a character that is neither a digit nor a point and in front of another one, a numeral is
taken from both ends as the same part of the text, however far behind it the text is seen. -/
lemma numeral_between {u w v : Text} (hw : IsNumeral w) (hu : ∀ c ∈ u.getLast?, isPart c = false)
    (hv : ∀ c ∈ v.head?, isPart c = false) (hstart : (u ++ w).length ≤ b)
    (hstop : b ≤ (u ++ w ++ v).length) (s s' : Int) :
    numeral .forward ⟨u ++ w ++ v, u.length, s, b⟩ =
        (.ok true, ⟨u ++ w ++ v, (u ++ w).length, u.length, b⟩) ∧
      numeral .backward ⟨u ++ w ++ v, (u ++ w).length, s', b⟩ =
        (.ok true, ⟨u ++ w ++ v, (u ++ w).length, u.length, b⟩) := by
  have hpositive : w.length ≠ 0 := by simpa using hw.ne_nil
  constructor
  · obtain ⟨n, rfl⟩ := Nat.exists_eq_add_of_le hstart
    have hseen : (u ++ w ++ v).slice u.length ((u ++ w).length + n : Nat) = w ++ v.take n := by
      rw [Text.slice_natCast, List.take_length_add_append, List.append_assoc, List.drop_left]
    have hbehind : ∀ c ∈ (v.take n).head?, isPart c = false := by
      intro c hc
      rw [List.head?_take] at hc
      split at hc
      · cases hc
      · exact hv c hc
    have hreach : reach .forward (w ++ v.take n) = w.length :=
      reach_written_append .forward hw hbehind
    rw [numeral_forward_eq hstop, hseen, hreach, List.length_append]
    simp [hpositive]
  · have hbefore : ∀ c ∈ u.reverse.head?, isPart c = false := by simpa using hu
    have hreach : reach .backward (w.reverse ++ u.reverse) = w.length :=
      reach_written_append .backward hw hbefore
    have hinside : (u ++ w).length ≤ (u ++ w ++ v).length := by simp
    rw [numeral_backward_eq hinside, List.take_left, List.reverse_append, hreach,
      if_neg hpositive]
    simp

/-- Inside a text, a numeral is looked for without a fault in both directions.  From the left it is
found if one begins at the cursor and ends where the text is still seen, from the right if one ends
at the cursor, and then the longest one lies between the start and the cursor.  Where none is found,
the cursor stays.  Hence a numeral that stands between characters which are neither digits nor
points is taken from both ends alike. -/
theorem numeral_longest (hab : a ≤ b) (hb : b ≤ t.length) :
    (∃ found pos, numeral .forward ⟨t, a, start, b⟩ = (.ok found, ⟨t, pos, a, b⟩) ∧
        (found ↔ ∃ w, IsNumeral w ∧ w <+: t.slice a b) ∧
        (found → IsLongest (· <+: t.slice a b) (t.slice a pos)) ∧
        (¬ found → pos = a)) ∧
      (∃ found first, numeral .backward ⟨t, a, start, b⟩ = (.ok found, ⟨t, a, first, b⟩) ∧
        (found ↔ ∃ w, IsNumeral w ∧ w <:+ t.take a) ∧
        (found → IsLongest (· <:+ t.take a) (t.slice first a))) ∧
      ∀ u w v, t = u ++ w ++ v → IsNumeral w → (∀ c ∈ u.getLast?, isPart c = false) →
        (∀ c ∈ v.head?, isPart c = false) → (u ++ w).length ≤ b → ∀ s s' : Int,
          numeral .forward ⟨t, u.length, s, b⟩ =
              (.ok true, ⟨t, (u ++ w).length, u.length, b⟩) ∧
            numeral .backward ⟨t, (u ++ w).length, s', b⟩ =
              (.ok true, ⟨t, (u ++ w).length, u.length, b⟩) := by
  have ha : a ≤ t.length := hab.trans hb
  refine ⟨?forward, ?backward, ?between⟩
  case forward =>
    refine ⟨_, _, numeral_forward_eq hb, ?_, ?_, ?_⟩
    · rw [bne_iff_ne]
      exact reach_ne_zero_iff
    · intro hfound
      have hsome : reach .forward (t.slice a b) ≠ 0 := by simpa using hfound
      rw [slice_forward (reach_le_length .forward _)]
      exact isLongest_take_reach hsome
    · intro hfound
      have hnone : reach .forward (t.slice a b) = 0 := by simpa using hfound
      rw [hnone, Nat.add_zero]
  case backward =>
    have hturned : ∀ w : Text, w.reverse <+: (t.take a).reverse ↔ w <:+ t.take a :=
      fun w => List.reverse_prefix
    have hstands : reach .backward (t.take a).reverse ≠ 0 ↔
        ∃ w, IsNumeral w ∧ Lexeme.written .backward w <+: (t.take a).reverse := reach_ne_zero_iff
    simp only [Lexeme.written, hturned] at hstands
    by_cases hnone : reach .backward (t.take a).reverse = 0
    · refine ⟨false, _, (numeral_backward_eq ha).trans (if_pos hnone), ?_, by simp⟩
      rw [← hstands]
      simp [hnone]
    · refine ⟨true, _, (numeral_backward_eq ha).trans (if_neg hnone), ?_, ?_⟩
      · rw [← hstands]
        simp [hnone]
      · intro _
        have hlongest := isLongest_take_reach hnone
        simp only [Lexeme.written, hturned] at hlongest
        rwa [slice_backward ha (reach_le_length .backward _)]
  case between =>
    rintro u w v rfl hw hu hv hstart s s'
    exact numeral_between hw hu hv hstart hb s s'

/-- In `(10.5)..25`, seen up to its last digit, `.2` is taken at the second of the two points, and
nothing ends there that is a numeral.  The numeral in the parentheses is taken from both ends. -/
theorem numeral_longest_at_point :
    (∃ pos, numeral .forward ⟨['(', '1', '0', '.', '5', ')', '.', '.', '2', '5'], 7, 7, 9⟩ =
        (.ok true, ⟨['(', '1', '0', '.', '5', ')', '.', '.', '2', '5'], pos, 7, 9⟩) ∧
        IsLongest (· <+: ['.', '2'])
          (Text.slice ['(', '1', '0', '.', '5', ')', '.', '.', '2', '5'] 7 pos)) ∧
      (¬ ∃ w, IsNumeral w ∧ w <:+ ['(', '1', '0', '.', '5', ')', '.']) ∧
      numeral .forward ⟨['(', '1', '0', '.', '5', ')', '.', '.', '2', '5'], 1, 1, 9⟩ =
        numeral .backward ⟨['(', '1', '0', '.', '5', ')', '.', '.', '2', '5'], 5, 5, 9⟩ := by
  let t : Text := ['(', '1', '0', '.', '5', ')', '.', '.', '2', '5']
  obtain ⟨⟨found, pos, hforward, hiff, hlongest, -⟩, ⟨found', first, hbackward, hiff', -⟩, hsame⟩ :=
    @numeral_longest t 7 9 7 (by decide) (by decide)
  refine ⟨?_, ?_, ?_⟩
  · have hpoint : IsNumeral ([] ++ '.' :: ['2']) :=
      .point (List.forall_mem_nil _) (List.cons_ne_nil _ _) (List.forall_mem_singleton.mpr rfl)
    obtain rfl : found = true := hiff.mpr ⟨_, hpoint, List.prefix_rfl⟩
    exact ⟨pos, hforward, hlongest rfl⟩
  · have hnone : numeral .backward ⟨t, 7, 7, 9⟩ = (.ok false, ⟨t, 7, 7, 9⟩) := rfl
    obtain ⟨hresult, -⟩ := Prod.mk.inj (hnone.symm.trans hbackward)
    obtain rfl := Except.ok.inj hresult
    exact fun h => Bool.false_ne_true (hiff'.mpr h)
  · have hnumeral : IsNumeral (['1', '0'] ++ '.' :: ['5']) :=
      .point (List.forall_mem_cons.mpr ⟨rfl, List.forall_mem_singleton.mpr rfl⟩)
        (List.cons_ne_nil _ _) (List.forall_mem_singleton.mpr rfl)
    have hbefore : ∀ c ∈ List.getLast? ['('], isPart c = false := by
      intro c hc
      obtain rfl := Option.some.inj hc
      rfl
    have hbehind : ∀ c ∈ List.head? [')', '.', '.', '2', '5'], isPart c = false := by
      intro c hc
      obtain rfl := Option.some.inj hc
      rfl
    obtain ⟨hleft, hright⟩ := hsame ['('] _ [')', '.', '.', '2', '5'] rfl hnumeral hbefore hbehind
      (by decide) 1 5
    exact hleft.trans hright.symm

end Cursor

end Reckoner
