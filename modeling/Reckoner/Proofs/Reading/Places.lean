import Reckoner.Proofs.Retrieval

/-!
# Where a parse from the right leaves the cursor

A parse from the right goes left up to some place and then right again, over the white characters
that stand there.  That move is bounded by the end of the text, and not by the place where the parse
began.

Where there are tokens, the bound does not matter: something that is not white has been passed, and
the move ends there at the latest, so the text behind the cursor has no say in it.  Without tokens,
white characters alone have been passed, for a reader without tokens has taken nothing but closing
parentheses, all of them still open (`Progress.Vacant`).  Then the move comes back to where the
parse began, and goes on over any white characters that stand behind
(`parse_backward_goes_left_iff`).
-/

namespace Reckoner

open Lexeme Grammar

/-! ## White texts -/

/-- A spelling of no lexemes is white, and one of some lexemes is not. -/
lemma Grammar.Spells.eq_nil_iff {ls : List Lexeme} {s : Text} (h : Spells ls s)
    (hls : ∀ l ∈ ls, IsTerminal l) : ls = [] ↔ ∀ c ∈ s, Text.isWhite c := by
  constructor
  · intro hnil
    induction h with
    | nil => exact List.forall_mem_nil _
    | white hc _ ih => exact List.forall_mem_cons.mpr ⟨hc, ih hls hnil⟩
    | lexeme => cases hnil
  · intro hwhite
    by_contra hne
    obtain ⟨w, a, v, rfl, -, ha, -⟩ := h.exists_white hls hne
    have hmem := hwhite a (by simp)
    rw [ha] at hmem
    exact Bool.false_ne_true hmem

/-- What is taken of a text that is not taken as a whole is the same with more text behind it. -/
lemma takeWhile_append_of_not_forall {α : Type} {p : α → Bool} {xs : List α}
    (h : ¬ ∀ a ∈ xs, p a) (ys : List α) : (xs ++ ys).takeWhile p = xs.takeWhile p := by
  rw [List.takeWhile_append, if_neg]
  intro hlength
  have hall := (List.takeWhile_prefix p).eq_of_length hlength
  exact h (List.takeWhile_eq_self_iff.mp hall)

/-- Nothing is taken of a text exactly if it begins with something else. -/
lemma length_takeWhile_eq_zero_iff {α : Type} {p : α → Bool} {xs : List α} :
    (xs.takeWhile p).length = 0 ↔ ∀ a ∈ xs.head?, p a = false := by
  cases xs with
  | nil => simp
  | cons a xs => cases ha : p a <;> simp [ha]

/-! ## Readers without tokens -/

namespace Progress

variable {step : Int} {signed : Bool} {p q : Progress} {l : Lexeme} {cat : Category}
  {row ls rest : List Lexeme}

/-- From the right, a reader without tokens has the end of an operand in front of it, and it has
taken nothing but closing parentheses, all of which are open. -/
structure Vacant (row : List Lexeme) (p : Progress) : Prop where
  state : ∃ c, p.expected = .following .backward c
  operand : p.tokens = [] → p.expected.operator = false
  closing : p.tokens = [] → row.length = p.depth

/-- Before anything has been read, this is so. -/
lemma vacant_start : Vacant [] (.start .backward) where
  state := ⟨.operator, Expectation.start_eq .backward⟩
  operand _ := rfl
  closing _ := rfl

/-- Without tokens, neither a sign nor the beginning of a group that is not empty may come. -/
lemma Vacant.slots (hp : Vacant row p) (htokens : p.tokens = []) :
    p.expected.sign = false ∧ p.expected.opening = false := by
  obtain ⟨c, hc⟩ := hp.state
  have hoperator := hp.operand htokens
  rw [hc] at hoperator ⊢
  constructor
  · rw [Expectation.sign_following_backward, hoperator]
  · rw [Expectation.opening_following_backward, hoperator]

/-- What is taken from the right changes nothing about this. -/
lemma Vacant.takes (hp : Vacant row p) (h : Takes step .backward signed p l cat q) :
    Vacant (row ++ [l]) q := by
  cases h with
  | number h hk => exact ⟨⟨.number, rfl⟩, nofun, nofun⟩
  | @sign op h hop _ =>
    have hsome :
        (pushSign step ⟨.following .backward .sign, p.depth, p.tokens⟩ op).tokens ≠ [] := by
      intro htokens
      rw [pushSign_tokens] at htokens
      have hsign := (hp.slots (List.append_eq_nil_iff.mp htokens).2).1
      rw [Expectation.meets_sign, hsign] at h
      exact Bool.false_ne_true h
    exact ⟨⟨.sign, pushSign_expected op⟩, fun h => absurd h hsome, fun h => absurd h hsome⟩
  | operator h hop _ => exact ⟨⟨.operator, rfl⟩, nofun, nofun⟩
  | enter h =>
    refine ⟨⟨.closing, rfl⟩, fun _ => rfl, fun htokens => ?_⟩
    rw [List.length_append, hp.closing htokens, List.length_singleton]
  | @leave depth h hdepth =>
    -- The group has a token in it, or it leaves the marker of an empty one.
    have hsome : (pushEmpty ⟨.following .backward .opening, depth, p.tokens⟩
        p.expected.emptyGroup).tokens ≠ [] := by
      intro htokens
      rw [pushEmpty_tokens] at htokens
      obtain ⟨hmarker, hbefore⟩ := List.append_eq_nil_iff.mp htokens
      rw [Direction.exit_backward, Expectation.meets_opening_backward, (hp.slots hbefore).2,
        Bool.false_or] at h
      rw [if_pos h] at hmarker
      exact List.cons_ne_nil _ _ hmarker
    exact ⟨⟨.opening, pushEmpty_expected _⟩, fun h => absurd h hsome, fun h => absurd h hsome⟩

/-- A run from the right that leaves no tokens and no parenthesis open has taken nothing. -/
lemma Reads.eq_nil (h : Reads step .backward (.start .backward) ls rest q) (htokens : q.tokens = [])
    (hdepth : q.depth = 0) : ls = [] := by
  have hvacant : Vacant ([] ++ ls) q :=
    h.invariant (fun hp htakes => Vacant.takes hp htakes) [] vacant_start
  exact List.eq_nil_of_length_eq_zero ((hvacant.closing htokens).trans hdepth)

/-- A run from the right over the visible lexemes of a row, which closes all parentheses, leaves no
tokens exactly if the text of the row is white. -/
lemma Reads.tokens_eq_nil_iff (h : Reads step .backward (.start .backward) (visible row) rest q)
    (hknown : ∀ l ∈ row, l.IsKnown) (hdepth : q.depth = 0) :
    q.tokens = [] ↔ ∀ c ∈ joined .forward row.reverse, Text.isWhite c := by
  have hturned : ∀ l ∈ row.reverse, l.IsKnown := by simpa using hknown
  rw [← (spells_visible hturned).eq_nil_iff (isTerminal_of_mem_visible hturned), visible_reverse,
    List.reverse_eq_nil_iff]
  constructor
  · exact fun htokens => h.eq_nil htokens hdepth
  · intro hnothing
    rw [hnothing] at h
    rw [Reads.nil_iff.mp h]
    rfl

end Progress

/-! ## The place of the cursor -/

open Progress

namespace Cursor

variable {t : Text} {q : Nat} {ts : List Token} {c : Cursor}

/-- A parse from the right has passed the end `s` of what is in front of the cursor, which is white
exactly if there are no tokens.  The cursor is left behind the white characters that stand there in
the text, and where the text ends at the place of the cursor, behind those of `s`. -/
lemma exists_passed_of_parse_backward (hq : q ≤ t.length)
    (h : (place t q none none).parse .backward = (.ok ts, c)) :
    ∃ u s c', t.take q = u ++ s ∧ (ts = [] ↔ ∀ a ∈ s, Text.isWhite a) ∧
      c.pos = (u.length + ((s ++ t.drop q).takeWhile Text.isWhite).length : Nat) ∧
      (place (t.take q) q none none).parse .backward = (.ok ts, c') ∧
      c'.pos = (u.length + (s.takeWhile Text.isWhite).length : Nat) := by
  obtain ⟨p, r, hp, hr, ⟨hdepth, horder⟩, rfl⟩ := (parse_backward_eq_ok_iff hq rfl).mp h
  obtain ⟨u, s, row, rest, htext, hpos, rfl, hknown, hreads⟩ := exists_reads_of_pass rfl hr
  have hlength : (t.take q).length = q := List.length_take_of_le hq
  have hplace : p = u.length := by
    have htotal := congrArg List.length htext
    rw [hlength, List.length_append] at htotal
    rw [hp] at hpos
    omega
  have hbehind : t.drop p = joined .forward row.reverse ++ t.drop q := by
    conv_lhs => rw [← List.take_append_drop q t, htext, hplace]
    rw [List.append_assoc, List.drop_left]
  have hcut : (t.take q).drop p = joined .forward row.reverse := by
    rw [htext, hplace, List.drop_left]
  have hnone : ts = [] ↔ r.tokens = [] := by
    constructor
    · rintro rfl
      exact eq_nil_of_order horder
    · intro hnothing
      rw [hnothing] at horder
      exact (Option.some.inj horder).symm
  have hwhite := hnone.trans (hreads.tokens_eq_nil_iff hknown hdepth)
  have htwice : (t.take q).take q = t.take q := by rw [List.take_take, Nat.min_self]
  have hagain := (parse_backward_eq_ok_iff hlength.ge (congrArg _ (by rw [htwice]))).mpr
    ⟨p, r, hp, hr, ⟨hdepth, horder⟩, rfl⟩
  refine ⟨u, _, _, htext, hwhite, ?_, hagain, ?_⟩
  · rw [hbehind, hplace]
  · rw [hcut, hplace]

end Cursor

/-- Where a parse from the right gives tokens, or none, it gives the same where the text ends at the
place `q` at which it began, and there the cursor is left at `q` or in front of it.  In the whole
text the cursor is left at the same place exactly if there are tokens or no white character stands
at `q`.  Without tokens it is left behind all white characters that stand there. -/
theorem parse_backward_goes_left_iff {t : Text} {q : Nat} (hq : q ≤ t.length) {ts : List Token}
    {c : Cursor} (h : (Cursor.place t q none none).parse .backward = (.ok ts, c)) :
    ∃ c', (Cursor.place (t.take q) q none none).parse .backward = (.ok ts, c') ∧ c'.pos ≤ q ∧
      (c.pos ≤ q ∧ c.pos = c'.pos ↔ ts ≠ [] ∨ ∀ a ∈ t[q]?, Text.isWhite a = false) ∧
      (ts = [] → c.pos = q + ((t.drop q).takeWhile Text.isWhite).length) := by
  obtain ⟨u, s, c', htext, hwhite, hpos, hcut, hpos'⟩ := Cursor.exists_passed_of_parse_backward hq h
  have hlength : u.length + s.length = q := by
    rw [← List.length_append, ← htext, List.length_take_of_le hq]
  have hinside : (s.takeWhile Text.isWhite).length ≤ s.length :=
    (List.takeWhile_prefix Text.isWhite).length_le
  refine ⟨c', hcut, by omega, ?_⟩
  by_cases hts : ts = []
  · -- All of `s` is passed over again.
    have hall := hwhite.mp hts
    rw [List.takeWhile_append_of_pos hall, List.length_append] at hpos
    rw [List.takeWhile_eq_self_iff.mpr hall] at hpos'
    rw [← List.head?_drop, ← length_takeWhile_eq_zero_iff]
    constructor
    · simp only [hts, ne_eq, not_true_eq_false, false_or]
      omega
    · intro _
      omega
  · have hsome : ¬ ∀ a ∈ s, Text.isWhite a := fun hall => hts (hwhite.mpr hall)
    rw [takeWhile_append_of_not_forall hsome] at hpos
    constructor
    · exact iff_of_true ⟨by omega, hpos.trans hpos'.symm⟩ (.inl hts)
    · exact fun hnothing => absurd hnothing hts

/-- In `x 1+2 - y`, in front of the space behind the digit, `1+2` is found, and the cursor is left
at its first digit, as in `x 1+2`. -/
theorem parse_backward_goes_left_in_text :
    ∃ x y c c', (Cursor.place ['x', ' ', '1', '+', '2', ' ', '-', ' ', 'y'] 5 none none).parse
        .backward = (.ok [.number x 0, .number y 0, .binary .plus 0], c) ∧
      (Cursor.place ['x', ' ', '1', '+', '2'] 5 none none).parse .backward =
        (.ok [.number x 0, .number y 0, .binary .plus 0], c') ∧ c.pos = 2 ∧ c'.pos = 2 := by
  obtain ⟨x, y, c, hparse, hpos⟩ : ∃ x y c,
      (Cursor.place ['x', ' ', '1', '+', '2', ' ', '-', ' ', 'y'] 5 none none).parse .backward =
        (.ok [.number x 0, .number y 0, .binary .plus 0], c) ∧ c.pos = 2 := ⟨_, _, _, rfl, rfl⟩
  obtain ⟨c', hcut, -, hplace, -⟩ := parse_backward_goes_left_iff (q := 5) (by decide) hparse
  have hsame := (hplace.mpr (.inl (List.cons_ne_nil _ _))).2
  exact ⟨x, y, c, c', hparse, hcut, hpos, hsame.symm.trans hpos⟩

/-- Behind a letter and in front of a space, nothing is found, and the cursor is left behind the
space.  Without the space, it stays. -/
theorem not_parse_backward_goes_left_at_space :
    ∃ c c', (Cursor.place ['x', ' '] 1 none none).parse .backward = (.ok [], c) ∧
      (Cursor.place ['x'] 1 none none).parse .backward = (.ok [], c') ∧
      ¬ c.pos ≤ 1 ∧ c.pos ≠ c'.pos :=
  ⟨_, _, rfl, rfl, by decide, by decide⟩

end Reckoner
