import Reckoner.Proofs.Reading.Leftward

/-!
# Expressions inside a text

From the right a parse need not reach the beginning of the text.  What it finds stands in the text:
from the place where the cursor is left up to where it was, the text is parsed from the left into
the same tokens (`parse_slice_of_parse_backward`).  Conversely, an expression is found behind
unrelated text, unless it begins with a sign (`Grammar.parse_backward_behind_unrelated`): a sign may
stand behind an operator, behind an opening parenthesis and at the beginning of a text, and behind
an unrelated character the reader takes it for an operator whose left operand is missing.
-/

namespace Reckoner

open Lexeme Grammar Progress

/-! ## The visible part of a spelling -/

/-- No character of a numeral is white. -/
lemma Numeral.isWhite_of_isPart {c : Char} (h : Numeral.isPart c) : Text.isWhite c = false := by
  by_contra hwhite
  simp only [Text.isWhite, Text.isBlank, Bool.not_eq_false, Bool.or_eq_true, beq_iff_eq] at hwhite
  rcases hwhite with ((((((rfl | rfl) | rfl) | rfl) | rfl) | rfl) | rfl) <;>
    exact absurd h (by decide)

namespace Grammar

/-- A lexeme of the grammar begins with a character that is not white. -/
lemma IsTerminal.exists_cons {l : Lexeme} (h : IsTerminal l) :
    ∃ c cs, l.text = c :: cs ∧ Text.isWhite c = false := by
  cases l with
  | numeral w =>
    obtain ⟨c, cs, rfl⟩ := List.exists_cons_of_ne_nil (Numeral.IsNumeral.ne_nil h)
    exact ⟨c, cs, rfl, Numeral.isWhite_of_isPart (Numeral.IsNumeral.isPart h c (by simp))⟩
  | symbol op => exact ⟨op.toChar, [], rfl, by cases op <;> rfl⟩
  | white | foreign => exact h.elim

/-- A spelling of at least one lexeme has white characters at its beginning, and what follows them
is a spelling too. -/
lemma Spells.exists_white {ls : List Lexeme} {s : Text} (h : Spells ls s)
    (hls : ∀ l ∈ ls, IsTerminal l) (hne : ls ≠ []) :
    ∃ w a v, s = w ++ a :: v ∧ (∀ c ∈ w, Text.isWhite c) ∧ Text.isWhite a = false ∧
      Spells ls (a :: v) := by
  induction h with
  | nil => exact absurd rfl hne
  | @white c _ _ hc _ ih =>
    obtain ⟨w, a, v, rfl, hw, ha, hspells⟩ := ih hls hne
    exact ⟨c :: w, a, v, rfl, List.forall_mem_cons.mpr ⟨hc, hw⟩, ha, hspells⟩
  | @lexeme ls s l h _ =>
    obtain ⟨a, cs, htext, ha⟩ := (hls l (by simp)).exists_cons
    refine ⟨[], a, cs ++ s, by rw [htext]; rfl, List.forall_mem_nil _, ha, ?_⟩
    have hspells := Spells.lexeme l h
    rwa [htext] at hspells

end Grammar

/-! ## What is reported stands in the text -/

/-- A pass over a text from the right that ends without a fault has gone over the text from some
place on.  The lexemes of this part are known, and the visible ones are those of a run. -/
lemma exists_reads_of_pass {step : Int} {start pos : Int} {t : Text} {pass : Pass} {r : Progress}
    (hpass : Pass.backward step (.start .backward) start pos (split .backward t.reverse) = pass)
    (hr : pass.progress = .ok r) :
    ∃ u s row rest, t = u ++ s ∧ pass.pos = pos - s.length ∧ joined .forward row.reverse = s ∧
      (∀ l ∈ row, l.IsKnown) ∧
      Reads step .backward (.start .backward) (visible row) rest r := by
  subst hpass
  obtain ⟨passed, left, hrow, hpos, hreads⟩ := exists_reads_of_pass_backward hr
  have hknown : ∀ l ∈ passed, l.IsKnown := by
    refine hreads.isKnown (t := t.reverse) fun l hl => ?_
    rw [hrow]
    exact List.mem_append_left left hl
  have htext := joined_reverse_of_split_backward hrow
  have hlength : (joined .forward passed.reverse).length = width passed := by
    rw [← reverse_joined_backward, List.length_reverse, length_joined]
  exact ⟨_, _, passed, _, htext.symm, by rw [hpos, hlength], rfl, hknown, hreads⟩

/-- Where a pass over a text from the right ends with tokens that can be ordered, it has passed the
spelling of a sum, and the ordered tokens are the post-order of its tree. -/
theorem exists_derives_of_pass {step : Int} (hstep : 2 < step) {start pos : Int} {t : Text}
    {pass : Pass} {r : Progress} {ts : List Token}
    (hpass : Pass.backward step (.start .backward) start pos (split .backward t.reverse) = pass)
    (hr : pass.progress = .ok r) (hdepth : r.depth = 0) (horder : order r.tokens = some ts)
    (hne : ts ≠ []) :
    ∃ u s ls e, t = u ++ s ∧ pass.pos = pos - s.length ∧ Derives .sum ls e ∧ Spells ls s ∧
      ts = e.postOrder step 0 := by
  obtain ⟨u, s, row, rest, htext, hpos, hjoined, hknown, hreads⟩ := exists_reads_of_pass hpass hr
  obtain ⟨hbalanced, -⟩ := order_eq_some_iff.mp ⟨horder, hne⟩
  -- Balanced tokens show that the pass has not stopped behind an operator.
  have hoperator := hreads.operator_of_balanced hbalanced
  obtain ⟨e, he, htokens⟩ :=
    hreads.exists_derives (isTerminal_of_mem_visible hknown) hoperator hdepth
  rw [← visible_reverse] at he
  have hturned : ∀ l ∈ row.reverse, l.IsKnown := by simpa using hknown
  have hspells := spells_visible hturned
  rw [hjoined] at hspells
  rw [htokens, he.order_infixOrder hstep 0] at horder
  exact ⟨u, s, _, e, htext, hpos, he, hspells, (Option.some.inj horder).symm⟩

/-- What a cursor inside a text finds in front of it ends at the place of the cursor and begins
where the cursor is left: a character that is not white and what follows it spell a sum. -/
lemma exists_derives_of_parse_backward {t : Text} {q : Nat} (hq : q ≤ t.length) {ts : List Token}
    {c : Cursor} (h : (Cursor.place t q none none).parse .backward = (.ok ts, c)) (hne : ts ≠ []) :
    ∃ u a v ls e, t.take q = u ++ a :: v ∧ c.pos = u.length ∧ Text.isWhite a = false ∧
      Derives .sum ls e ∧ Spells ls (a :: v) ∧
      ts = e.postOrder Settings.standard.nestingStep 0 := by
  obtain ⟨p, r, hp, hr, ⟨hdepth, horder⟩, rfl⟩ := (Cursor.parse_backward_eq_ok_iff hq rfl).mp h
  obtain ⟨u, s, ls, e, htext, hleft, he, hspells, rfl⟩ :=
    exists_derives_of_pass (by decide) rfl hr hdepth horder hne
  obtain ⟨w, a, v, rfl, hw, ha, hvisible⟩ := hspells.exists_white he.isTerminal he.ne_nil
  have hbegin : p = u.length := by
    have hlength := congrArg List.length htext
    rw [List.length_take_of_le hq] at hlength
    rw [hp] at hleft
    simp only [List.length_append, List.length_cons] at hleft hlength
    omega
  -- The white characters in front of the expression are passed over again.
  have hdrop : t.drop u.length = w ++ (a :: v ++ t.drop q) := by
    conv_lhs => rw [← List.take_append_drop q t, htext]
    rw [List.append_assoc, List.drop_left, List.append_assoc]
  obtain ⟨hskip, -⟩ := span_append hw (a :: v ++ t.drop q) (by simp [ha])
  refine ⟨u ++ w, a, v, ls, e, by rw [htext, List.append_assoc], ?_, ha, he, hvisible, rfl⟩
  change ((p + _ : Nat) : Int) = _
  rw [hbegin, hdrop, hskip, List.length_append]

/-- Where a cursor inside a text finds an expression in front of it, the cursor is left at the first
character of the expression, and the text from there to the place of the cursor is parsed from the
left into the same tokens. -/
theorem parse_slice_of_parse_backward {t : Text} {q : Nat} (hq : q ≤ t.length) {ts : List Token}
    {c : Cursor} (h : (Cursor.place t q none none).parse .backward = (.ok ts, c)) (hne : ts ≠ []) :
    ∃ p : Nat, c.pos = p ∧ p < q ∧ (∃ a, t[p]? = some a ∧ Text.isWhite a = false) ∧
      parse .forward (t.slice p q) = .ok ts := by
  obtain ⟨u, a, v, ls, e, htext, hpos, ha, he, hspells, rfl⟩ :=
    exists_derives_of_parse_backward hq h hne
  have hbefore : u.length < q := by
    have hlength := congrArg List.length htext
    rw [List.length_take_of_le hq, List.length_append, List.length_cons] at hlength
    omega
  refine ⟨u.length, hpos, hbefore, ⟨a, ?_, ha⟩, ?_⟩
  · rw [← List.getElem?_take_of_lt hbefore, htext]
    simp
  · rw [Text.slice_natCast, htext, List.drop_left]
    exact he.parse_forward hspells

/-- In `2.3.4 - -(1) x`, in front of the letter, the numeral at the beginning is cut at its second
point: what is found begins behind the first point, and is what `3.4 - -(1) ` is parsed into. -/
theorem parse_slice_of_cut_numeral :
    ∃ x y c, (Cursor.place ['2', '.', '3', '.', '4', ' ', '-', ' ', '-', '(', '1', ')', ' ', 'x'] 13
        none none).parse .backward =
          (.ok [.number x 0, .number y 0, .unary .minus 2, .binary .minus 0], c) ∧ c.pos = 2 ∧
      parse .forward
        (Text.slice ['2', '.', '3', '.', '4', ' ', '-', ' ', '-', '(', '1', ')', ' ', 'x'] 2 13) =
          .ok [.number x 0, .number y 0, .unary .minus 2, .binary .minus 0] := by
  let t : Text := ['2', '.', '3', '.', '4', ' ', '-', ' ', '-', '(', '1', ')', ' ', 'x']
  obtain ⟨x, y, c, hparse, hpos⟩ : ∃ x y c, (Cursor.place t 13 none none).parse .backward =
      (.ok [.number x 0, .number y 0, .unary .minus 2, .binary .minus 0], c) ∧ c.pos = 2 :=
    ⟨_, _, _, rfl, rfl⟩
  obtain ⟨p, hp, -, -, hslice⟩ := parse_slice_of_parse_backward (q := 13) (by decide) hparse
    (List.cons_ne_nil _ _)
  obtain rfl : p = 2 := by omega
  exact ⟨x, y, c, hparse, hpos, hslice⟩

/-! ## Expressions behind unrelated text -/

/-- The characters that have no place in an expression. -/
def Text.isUnrelated (c : Char) : Bool :=
  !Numeral.isPart c && !isWhite c && (Operator.ofChar? c).isNone

/-- The texts that begin with a sign. -/
def Text.IsSigned (t : Text) : Prop := t.head? = some '+' ∨ t.head? = some '-'

/-- Unrelated text is empty or has a foreign lexeme at its right end. -/
lemma split_unrelated {u : Text} (hu : ∀ c ∈ u.getLast?, Text.isUnrelated c) :
    u = [] ∨ ∃ c left, split .backward u.reverse = .foreign c :: left := by
  rcases List.eq_nil_or_concat u with rfl | ⟨u, c, rfl⟩
  · exact .inl rfl
  · have hc : Text.isUnrelated c := hu c (by simp)
    simp only [Text.isUnrelated, Bool.and_eq_true, Bool.not_eq_true', Option.isNone_iff_eq_none]
      at hc
    obtain ⟨⟨hpart, hwhite⟩, hop⟩ := hc
    refine .inr ⟨c, split .backward u.reverse, ?_⟩
    rw [List.concat_eq_append, List.reverse_append, List.reverse_singleton, List.singleton_append,
      split_cons .backward hpart]
    simp [ofChar, hop, hwhite]

namespace Grammar

variable {ls : List Lexeme} {t u : Text} {q : Progress}

/-- A text without white characters at its beginning is signed if the row that it spells begins with
a sign. -/
lemma Spells.isSigned_iff (h : Spells ls t) (hls : ∀ l ∈ ls, IsTerminal l)
    (hhead : ∀ c ∈ t.head?, Text.isWhite c = false) :
    t.IsSigned ↔ ∃ op : Operator, op.isSign ∧ ls.head? = some (.symbol op) := by
  cases h with
  | nil => simp [Text.IsSigned]
  | white hc =>
    have hvisible := hhead _ rfl
    rw [hc] at hvisible
    exact absurd hvisible (by decide)
  | @lexeme ls t l _ =>
    have hl := hls l (by simp)
    cases l with
    | numeral w =>
      obtain ⟨c, cs, rfl⟩ := List.exists_cons_of_ne_nil (Numeral.IsNumeral.ne_nil hl)
      have hpart : Numeral.isPart c := Numeral.IsNumeral.isPart hl c (by simp)
      constructor
      · rintro (hplus | hminus)
        · obtain rfl := Option.some.inj hplus
          exact absurd hpart (by decide)
        · obtain rfl := Option.some.inj hminus
          exact absurd hpart (by decide)
      · rintro ⟨op, -, hhead⟩
        simp at hhead
    | symbol op =>
      have hsign : Text.IsSigned (Lexeme.text (.symbol op) ++ t) ↔ op.isSign := by
        cases op <;> simp [Text.IsSigned, Lexeme.text, Operator.toChar, Operator.isSign]
      rw [hsign]
      simp
    | white | foreign => exact hl.elim

/-- Where a run from the right takes the row of an expression behind unrelated text, the parse comes
down to whether the reader has finished, and the cursor is left at the expression. -/
lemma Spells.parse_backward_unrelated (h : Spells ls t) (hls : ∀ l ∈ ls, IsTerminal l)
    (hapart : ls.IsChain Apart) (hhead : ∀ c ∈ t.head?, Text.isWhite c = false)
    (hu : ∀ c ∈ u.getLast?, Text.isUnrelated c)
    (hreads : Reads Settings.standard.nestingStep .backward (.start .backward) ls.reverse
      (visible (split .backward u.reverse)) q) :
    ((Cursor.whole (u ++ t) .backward).parse .backward).1 = q.finish q.tokens u.length ∧
      ((Cursor.whole (u ++ t) .backward).parse .backward).2.pos = u.length := by
  obtain ⟨row, rfl, rfl, hknown, hchain⟩ := h.exists_row hls hapart
  have hend : ∀ c ∈ u.reverse.head?, Numeral.isPart c = false := by
    intro c hc
    have hc := hu c (by simpa using hc)
    simp only [Text.isUnrelated, Bool.and_eq_true, Bool.not_eq_true'] at hc
    exact hc.1.1
  have hturned : ∀ l ∈ row.reverse, l.IsKnown := by simpa using hknown
  have hrow := split_joined_append .backward hturned (isChain_apart_reverse hchain) hend
  rw [joined_backward_reverse, ← List.reverse_append] at hrow
  rw [← visible_reverse] at hreads
  have hstop : ∀ start pos, Pass.backward Settings.standard.nestingStep q start pos
      (split .backward u.reverse) = ⟨.ok q, start, pos⟩ := by
    intro start pos
    rcases split_unrelated hu with rfl | ⟨c, left, hleft⟩
    · rfl
    · rw [hleft]
      rfl
  obtain ⟨hskip, -⟩ :=
    span_append (List.forall_mem_nil (Text.isWhite ·)) (joined .forward row) hhead
  rw [List.nil_append] at hskip
  obtain ⟨hparse, hpos⟩ := Cursor.parse_backward_append hrow hreads hstop
  refine ⟨hparse, hpos.trans ?_⟩
  simp [hskip]

/-- From the right, the row of an expression that begins with no sign is taken wherever it
stands. -/
lemma Derives.reads_backward_of_not_signed {e : Tree} (he : Derives .sum ls e) (step : Int)
    (hsign : ∀ op : Operator, op.isSign → ls.head? ≠ some (.symbol op)) (rest : List Lexeme) :
    Reads step .backward (.start .backward) ls.reverse rest
      ⟨.beforeOperand, 0, e.infixOrder step 0⟩ := by
  have hreads : Reads step .backward (.start .backward) ls.reverse []
      ⟨.beforeOperand, 0, e.infixOrder step 0 ++ []⟩ := he.reads_backward rfl rfl rfl
  rw [List.append_nil] at hreads
  refine hreads.change_rest fun {r m cat} hm htakes => htakes.of_not_isSign ?_ _
  rintro op rfl
  rw [List.getLast?_reverse] at hm
  by_contra hop
  exact hsign op (by simpa using hop) hm

/-- From the right, where no sign may stand in front of the row of an expression, a sign at its
beginning is taken for an operator, and so one is left that has no left operand. -/
lemma Derives.reads_backward_sign_as_operator {e : Tree} {op : Operator} (he : Derives .sum ls e)
    (step : Int) (hop : op.isSign) {rest : List Lexeme} (hrest : admitSign rest = false) :
    Reads step .backward (.start .backward) (Lexeme.symbol op :: ls).reverse rest
      (pushBinary step ⟨.following .backward .operator, 0, e.infixOrder step 0⟩ op) := by
  have harithmetic := Operator.isArithmetic_of_isSign hop
  have hreads : Reads step .backward (.start .backward) ls.reverse (.symbol op :: rest)
      ⟨.beforeOperand, 0, e.infixOrder step 0 ++ []⟩ :=
    he.reads_backward rfl rfl (admitSign_arithmetic_cons harithmetic _)
  rw [List.append_nil] at hreads
  rw [List.reverse_cons]
  refine Reads.append_iff.mpr ⟨_, hreads, .cons (.operator rfl harithmetic ?_) .nil⟩
  intro _ hsigned
  rw [List.nil_append, Direction.admitSign, hrest] at hsigned
  exact absurd hsigned Bool.false_ne_true

/-- A run from the right over the row of an expression behind unrelated text goes as it goes without
this text, unless the row begins with a sign. -/
lemma Derives.reads_backward_unrelated {e : Tree} (he : Derives .sum ls e) (step : Int)
    (hu : ∀ c ∈ u.getLast?, Text.isUnrelated c)
    (hsign : u = [] ∨ ∀ op : Operator, op.isSign → ls.head? ≠ some (.symbol op)) :
    Reads step .backward (.start .backward) ls.reverse (visible (split .backward u.reverse))
      ⟨.beforeOperand, 0, e.infixOrder step 0⟩ := by
  rcases hsign with rfl | hsign
  · have hreads : Reads step .backward (.start .backward) ls.reverse []
        ⟨.beforeOperand, 0, e.infixOrder step 0 ++ []⟩ := he.reads_backward rfl rfl rfl
    rwa [List.append_nil] at hreads
  · exact he.reads_backward_of_not_signed step hsign _

/-- A run from the right over the row of an expression behind unrelated text takes a sign at the
beginning of the row for an operator, and so leaves one that has no left operand. -/
lemma Derives.reads_backward_signed {e : Tree} {op : Operator} (he : Derives .sum ls e)
    (step : Int) (hop : op.isSign) (hne : u ≠ []) (hu : ∀ c ∈ u.getLast?, Text.isUnrelated c) :
    Reads step .backward (.start .backward) (Lexeme.symbol op :: ls).reverse
      (visible (split .backward u.reverse))
      (pushBinary step ⟨.following .backward .operator, 0, e.infixOrder step 0⟩ op) := by
  apply he.reads_backward_sign_as_operator step hop
  rcases split_unrelated hu with rfl | ⟨c, left, hleft⟩
  · exact absurd rfl hne
  · rw [hleft]
    rfl

/-- From the right, an expression behind unrelated text is parsed into the same tokens as from the
left, unless it begins with a sign and there is a character in front of it: then the sign is taken
for an operator and has no left operand.  In any case the cursor is left at the expression. -/
theorem parse_backward_behind_unrelated (ht : IsSentence t)
    (hhead : ∀ c ∈ t.head?, Text.isWhite c = false) (hu : ∀ c ∈ u.getLast?, Text.isUnrelated c) :
    ((u = [] ∨ ¬ t.IsSigned) → ∃ ts, parse .forward t = .ok ts ∧
        ((Cursor.whole (u ++ t) .backward).parse .backward).1 = .ok ts) ∧
      (u ≠ [] ∧ t.IsSigned → ((Cursor.whole (u ++ t) .backward).parse .backward).1 =
        .error (.malformed .parityMismatch u.length)) ∧
      ((Cursor.whole (u ++ t) .backward).parse .backward).2.pos = u.length := by
  obtain ⟨ls, ⟨e, he⟩, hspells⟩ := ht
  have hsigned := hspells.isSigned_iff he.isTerminal hhead
  by_cases hsign : u = [] ∨ ¬ t.IsSigned
  · have hnosign : u = [] ∨ ∀ op : Operator, op.isSign → ls.head? ≠ some (.symbol op) :=
      hsign.imp_right fun hnot op hop hfirst => hnot (hsigned.mpr ⟨op, hop, hfirst⟩)
    have hreads := he.reads_backward_unrelated Settings.standard.nestingStep hu hnosign
    obtain ⟨hparse, hpos⟩ :=
      hspells.parse_backward_unrelated he.isTerminal he.isChain hhead hu hreads
    refine ⟨fun _ => ⟨_, he.parse_forward hspells, ?_⟩, ?_, hpos⟩
    · rw [hparse, finish_eq_ok_iff]
      exact ⟨rfl, he.order_infixOrder (by decide) 0⟩
    · rintro ⟨hne, hyes⟩
      rcases hsign with hnil | hnot
      · exact absurd hnil hne
      · exact absurd hyes hnot
  · obtain ⟨hne, hyes⟩ := not_or.mp hsign
    rw [not_not] at hyes
    obtain ⟨op, hop, hfirst⟩ := hsigned.mp hyes
    obtain ⟨ls, rfl⟩ := List.head?_eq_some_iff.mp hfirst
    obtain ⟨f, hf⟩ := Derivable.of_sign_cons hop ⟨e, he⟩
    have hreads := hf.reads_backward_signed Settings.standard.nestingStep hop hne hu
    obtain ⟨hparse, hpos⟩ :=
      hspells.parse_backward_unrelated he.isTerminal he.isChain hhead hu hreads
    refine ⟨fun h => absurd h hsign, fun _ => ?_, hpos⟩
    rw [hparse]
    exact finish_eq_error rfl (f.order_binary_infixOrder rfl _ 0) _

/-- Behind a letter, `(-3)` is parsed as it is without the letter, and `-3` is not. -/
theorem parse_backward_behind_letter :
    (∃ ts, parse .forward ['(', '-', '3', ')'] = .ok ts ∧
        ((Cursor.whole (['x'] ++ ['(', '-', '3', ')']) .backward).parse .backward).1 = .ok ts) ∧
      ((Cursor.whole (['x'] ++ ['-', '3']) .backward).parse .backward).1 =
        .error (.malformed .parityMismatch 1) := by
  have hunary : Derives .unary [.symbol .minus, .numeral ['3']] _ :=
    .signed rfl (.promote (derives_digit rfl))
  have hsigned := hunary.sum_of_unary
  have hatom : Derives .unary (.symbol .leftParenthesis :: ([.symbol .minus, .numeral ['3']] ++
      [.symbol .rightParenthesis])) _ := .promote (.group hsigned)
  have hgroup := hatom.sum_of_unary
  have hspells : Spells [.symbol .minus, .numeral ['3']] ['-', '3'] :=
    .lexeme (.symbol .minus) (.lexeme (.numeral ['3']) .nil)
  have hspells' : Spells _ ['(', '-', '3', ')'] :=
    .lexeme (.symbol .leftParenthesis) (.lexeme (.symbol .minus) (.lexeme (.numeral ['3'])
      (.lexeme (.symbol .rightParenthesis) .nil)))
  have hletter : ∀ c ∈ List.getLast? ['x'], Text.isUnrelated c := by
    intro c hc
    obtain rfl := Option.some.inj hc
    rfl
  constructor
  · have hhead : ∀ c ∈ List.head? ['(', '-', '3', ')'], Text.isWhite c = false := by
      intro c hc
      obtain rfl := Option.some.inj hc
      rfl
    refine (parse_backward_behind_unrelated ⟨_, ⟨_, hgroup⟩, hspells'⟩ hhead hletter).1 ?_
    exact .inr (by simp [Text.IsSigned])
  · have hhead : ∀ c ∈ List.head? ['-', '3'], Text.isWhite c = false := by
      intro c hc
      obtain rfl := Option.some.inj hc
      rfl
    refine (parse_backward_behind_unrelated ⟨_, ⟨_, hsigned⟩, hspells⟩ hhead hletter).2.1 ?_
    exact ⟨List.cons_ne_nil _ _, .inr rfl⟩

/-- The text `-2` is a sentence and is parsed, but not behind the letter `x`, which has no place in
an expression. -/
theorem not_parse_backward_behind_letter :
    IsSentence ['-', '2'] ∧ Text.isUnrelated 'x' ∧ (∃ ts, parse .forward ['-', '2'] = .ok ts) ∧
      ¬ ∃ ts, ((Cursor.whole (['x'] ++ ['-', '2']) .backward).parse .backward).1 = .ok ts := by
  have hunary : Derives .unary [.symbol .minus, .numeral ['2']] _ :=
    .signed rfl (.promote (derives_digit rfl))
  have hsum := hunary.sum_of_unary
  have hspells : Spells [.symbol .minus, .numeral ['2']] ['-', '2'] :=
    .lexeme (.symbol .minus) (.lexeme (.numeral ['2']) .nil)
  refine ⟨⟨_, ⟨_, hsum⟩, hspells⟩, rfl, ⟨_, hsum.parse_forward hspells⟩, ?_⟩
  rintro ⟨ts, hparse⟩
  have hfault : ((Cursor.whole (['x'] ++ ['-', '2']) .backward).parse .backward).1 =
      .error (.malformed .parityMismatch 1) := rfl
  rw [hfault] at hparse
  cases hparse

end Grammar

end Reckoner
