import Reckoner.Proofs.Ordering
import Reckoner.Proofs.Reading.Run

/-!
# Sentences are parsed

What the grammar derives is read from the left (`Derives.reads_forward`) and from the right
(`Derives.reads_backward`), and in both directions the reader is left with the infix list of the
tree.  So a parse of a sentence gives the post-order of its tree (`parse_forward_of_spells`), and
the two directions agree on sentences (`parse_backward_of_isSentence`).

From the left the open slots tell a sign from a binary operator: after an operand no sign may stand.
From the right both may stand before an operand, and what comes further left decides: a sign is
never preceded by the end of an operand (`Derives.admitSign_reverse_append`).
-/

namespace Reckoner

namespace Progress

/-- The tokens of a signed expression: a minus has the priority of unary expressions, and a plus
leaves no token. -/
lemma infixOrder_signed (step : Int) (depth : Nat) (op : Operator) (e : Grammar.Tree) :
    (Grammar.Tree.signed op e).infixOrder step depth =
      (if op = .minus then [.unaryAt (step * depth) op] else []) ++ e.infixOrder step depth := by
  by_cases hminus : op = .minus
  · subst hminus
    rfl
  · simp [Grammar.Tree.infixOrder, hminus]

/-- The token of a binary operator has the priority of its level. -/
lemma binaryAt_base (step : Int) (p : Progress) {op : Operator} (hop : op.isArithmetic) :
    Token.binaryAt (p.base step) op =
      .binary op (step * p.depth + (Grammar.Level.ofOperator op).offset) := by
  cases op <;> first | rfl | exact absurd hop (by decide)

end Progress

namespace Grammar

open Lexeme Progress

variable {step : Int} {l : Level} {ls : List Lexeme} {e : Tree}

/-! ## From the left -/

/-- From the left, a reader that is ready for an operand takes a derived row, ends behind an
operand, and has the tokens of the tree. -/
theorem Derives.reads_forward (step : Int) (h : Derives l ls e) {p : Progress}
    (hnumber : p.expected.number) (hopening : p.expected.opening) (hsign : p.expected.sign)
    (rest : List Lexeme) :
    ∃ cat, (cat = .number ∨ cat = .closing) ∧
      Reads step .forward p ls rest
        ⟨.following .forward cat, p.depth, (e.infixOrder step p.depth).reverse ++ p.tokens⟩ := by
  induction h generalizing p rest with
  | numeral ht =>
    have hmeets : p.expected.meets (.required .forward .number) := by simpa using hnumber
    exact ⟨.number, .inl rfl, .cons (.number hmeets (Token.ofNumeral_eq_ok ht)) .nil⟩
  | empty =>
    exact ⟨.closing, .inr rfl, .cons (.opening_forward hopening)
      (.cons (.closing_forward rfl rfl) .nil)⟩
  | @group ls e _ ih =>
    let inside : Progress := ⟨.following .forward .opening, p.depth + 1, p.tokens⟩
    obtain ⟨cat, hcat, hinner⟩ := ih (p := inside) rfl rfl rfl (.symbol .rightParenthesis :: rest)
    have hleave : Reads step .forward
        ⟨.following .forward cat, p.depth + 1,
          (e.infixOrder step (p.depth + 1)).reverse ++ p.tokens⟩ [.symbol .rightParenthesis] rest
        ⟨.following .forward .closing, p.depth,
          (e.infixOrder step (p.depth + 1)).reverse ++ p.tokens⟩ := by
      rcases hcat with rfl | rfl <;> exact .cons (.closing_forward rfl rfl) .nil
    have hgroup := Reads.append_iff.mpr ⟨_, hinner, hleave⟩
    exact ⟨.closing, .inr rfl, .cons (.opening_forward hopening) hgroup⟩
  | @signed op ls e hop _ ih =>
    let behind : Progress := pushSign step ⟨.following .forward .sign, p.depth, p.tokens⟩ op
    have hbehind : behind.expected = .operand := pushSign_expected op
    have hmeets : p.expected.meets (.required .forward .sign) := by simpa using hsign
    obtain ⟨cat, hcat, hoperand⟩ := ih (p := behind) (by rw [hbehind]; rfl) (by rw [hbehind]; rfl)
      (by rw [hbehind]; rfl) rest
    have htokens : (e.infixOrder step behind.depth).reverse ++ behind.tokens =
        ((Tree.signed op e).infixOrder step p.depth).reverse ++ p.tokens := by
      rw [infixOrder_signed, List.reverse_append, List.append_assoc, pushSign_tokens,
        pushSign_depth]
      split <;> rfl
    rw [htokens, pushSign_depth] at hoperand
    exact ⟨cat, hcat, .cons (.sign hmeets hop rfl) hoperand⟩
  | @binary l op ls ms e f hop hl _ _ ihe ihf =>
    subst hl
    obtain ⟨cat, hcat, hleft⟩ := ihe hnumber hopening hsign (.symbol op :: ms ++ rest)
    let behind : Progress := pushBinary step
      ⟨.following .forward .operator, p.depth, (e.infixOrder step p.depth).reverse ++ p.tokens⟩ op
    obtain ⟨cat', hcat', hright⟩ := ihf (p := behind) rfl rfl rfl rest
    -- Behind an operand no sign may stand, so the symbol is the operator.
    have hoperator : Takes step .forward true
        ⟨.following .forward cat, p.depth, (e.infixOrder step p.depth).reverse ++ p.tokens⟩
        (.symbol op) .operator behind := by
      rcases hcat with rfl | rfl <;> exact .operator rfl hop fun _ _ => rfl
    have htokens : (f.infixOrder step behind.depth).reverse ++ behind.tokens =
        ((Tree.binary op e f).infixOrder step p.depth).reverse ++ p.tokens := by
      simp [behind, Tree.infixOrder, pushBinary, push, binaryAt_base step _ hop]
    rw [htokens] at hright
    exact ⟨cat', hcat', Reads.append_iff.mpr ⟨_, hleft, .cons hoperator hright⟩⟩
  | promote _ ih => exact ih hnumber hopening hsign rest

/-- A text that spells a derived sum is parsed into the post-order of the tree. -/
lemma Derives.parse_forward {t : Text} (h : Derives .sum ls e) (ht : Spells ls t) :
    parse .forward t = .ok (e.postOrder Settings.standard.nestingStep 0) := by
  obtain ⟨hvisible, -⟩ := ht.visible_split h.isTerminal h.isChain
  obtain ⟨cat, -, hreads⟩ :=
    h.reads_forward Settings.standard.nestingStep (p := .start .forward) rfl rfl rfl []
  rw [parse_forward_eq_ok_iff, hvisible]
  refine ⟨_, hreads, rfl, ?_⟩
  simpa [Progress.start] using h.order_infixOrder (by decide) 0

/-- A text that spells a derived sum is parsed into the post-order of the tree, in which every
numeral is the number token of its text. -/
theorem parse_forward_of_spells {t : Text} (h : Derives .sum ls e) (ht : Spells ls t) :
    parse .forward t = .ok (e.postOrder Settings.standard.nestingStep 0) ∧
      ∀ n ∈ e.numerals, Token.ofNumeral n = .ok (.number (Numeral.value n) 0) :=
  ⟨h.parse_forward ht, fun n hn => Token.ofNumeral_eq_ok (h.isNumeral_of_mem_numerals n hn)⟩

/-- A digit is an atom. -/
lemma derives_digit {c : Char} (hc : c.isDigit) : Derives .atom [.numeral [c]] (.numeral [c]) :=
  .numeral (.whole (List.cons_ne_nil c []) (by simpa using hc))

/-- In `2*-(1 - .5)` the difference has the priority of its depth, and the sign waits for it. -/
theorem parse_forward_signed_group :
    parse .forward ['2', '*', '-', '(', '1', ' ', '-', ' ', '.', '5', ')'] =
      .ok [.number (Numeral.value ['2']) 0, .number (Numeral.value ['1']) 0,
        .number (Numeral.value ['.', '5']) 0, .binary .minus 10, .unary .minus 2,
        .binary .multiply 1] := by
  have hpoint : Derives .atom [.numeral ['.', '5']] (.numeral ['.', '5']) :=
    .numeral (.point (List.forall_mem_nil _) (List.cons_ne_nil '5' []) (by simp))
  have hdifference : Derives .sum ([.numeral ['1']] ++ .symbol .minus :: [.numeral ['.', '5']]) _ :=
    .binary rfl rfl (.promote (.promote (.promote (.promote (derives_digit rfl)))))
      (.promote (.promote (.promote hpoint)))
  have hsigned : Derives .unary (.symbol .minus :: _) _ :=
    .signed rfl (.promote (.group hdifference))
  have hproduct : Derives .sum ([.numeral ['2']] ++ .symbol .multiply :: _) _ :=
    .promote (.binary rfl rfl (.promote (.promote (.promote (derives_digit rfl))))
      (.promote hsigned))
  have hspells : Spells _ ['2', '*', '-', '(', '1', ' ', '-', ' ', '.', '5', ')'] :=
    .lexeme (.numeral ['2']) (.lexeme (.symbol .multiply) (.lexeme (.symbol .minus)
      (.lexeme (.symbol .leftParenthesis) (.lexeme (.numeral ['1']) (.white rfl
        (.lexeme (.symbol .minus) (.white rfl (.lexeme (.numeral ['.', '5'])
          (.lexeme (.symbol .rightParenthesis) .nil)))))))))
  exact (parse_forward_of_spells hproduct hspells).1

/-! ## From the right -/

/-- A sign may stand to the right of an arithmetic symbol. -/
lemma admitSign_arithmetic_cons {op : Operator} (hop : op.isArithmetic) (rest : List Lexeme) :
    admitSign (.symbol op :: rest) := by
  cases op <;> first | rfl | exact absurd hop (by decide)

/-- No sign may stand to the right of a derived row, since the row ends an operand. -/
lemma Derives.admitSign_reverse_append (h : Derives l ls e) (rest : List Lexeme) :
    admitSign (ls.reverse ++ rest) = false := by
  induction h generalizing rest with
  | numeral | empty => rfl
  | group _ _ => simp [admitSign]
  | @signed op _ _ _ _ ih => simpa using ih (.symbol op :: rest)
  | @binary _ op ls _ _ _ _ _ _ _ _ ihf => simpa using ihf (.symbol op :: (ls.reverse ++ rest))
  | promote _ ih => exact ih rest

/-- From the right, a reader that is ready for the end of an operand takes a derived row in front of
which a sign may stand, ends before an operand, and has the tokens of the tree. -/
theorem Derives.reads_backward (h : Derives l ls e) {p : Progress} (hnumber : p.expected.number)
    (hclosing : p.expected.closing) {rest : List Lexeme} (hrest : admitSign rest) :
    Reads step .backward p ls.reverse rest
      ⟨.beforeOperand, p.depth, e.infixOrder step p.depth ++ p.tokens⟩ := by
  induction h generalizing p rest with
  | numeral ht =>
    have hmeets : p.expected.meets (.required .backward .number) := by simpa using hnumber
    exact .cons (.number hmeets (Token.ofNumeral_eq_ok ht)) .nil
  | empty => exact .cons (.closing_backward hclosing) (.cons (.opening_backward rfl rfl) .nil)
  | @group ls e _ ih =>
    let inside : Progress := ⟨.following .backward .closing, p.depth + 1, p.tokens⟩
    have hbefore : admitSign (.symbol .leftParenthesis :: rest) := rfl
    have hinner := ih (p := inside) rfl rfl hbefore
    have hgroup := Reads.append_iff.mpr ⟨_, hinner, .cons (.opening_backward rfl rfl) .nil⟩
    rw [List.reverse_cons, List.reverse_append, List.append_assoc]
    exact .cons (.closing_backward hclosing) hgroup
  | @signed op ls e hop _ ih =>
    have hbefore := admitSign_arithmetic_cons (Operator.isArithmetic_of_isSign hop) rest
    have hoperand := ih hnumber hclosing hbefore
    have hpush : pushSign step
        ⟨.following .backward .sign, p.depth, e.infixOrder step p.depth ++ p.tokens⟩ op =
        ⟨.beforeOperand, p.depth, (Tree.signed op e).infixOrder step p.depth ++ p.tokens⟩ := by
      rw [infixOrder_signed, List.append_assoc]
      unfold pushSign
      split <;> rfl
    rw [List.reverse_cons, ← hpush]
    exact Reads.append_iff.mpr ⟨_, hoperand, .cons (.sign rfl hop hrest) .nil⟩
  | @binary l op ls ms e f hop hl hleft _ ihe ihf =>
    subst hl
    have hbefore := admitSign_arithmetic_cons hop (ls.reverse ++ rest)
    have hright := ihf hnumber hclosing hbefore
    let behind : Progress := pushBinary step
      ⟨.following .backward .operator, p.depth, f.infixOrder step p.depth ++ p.tokens⟩ op
    have hleft' := ihe (p := behind) rfl rfl hrest
    -- The left operand ends in front of the symbol, so it is the operator and no sign.
    have hoperator : Takes step .backward (admitSign (ls.reverse ++ rest))
        ⟨.beforeOperand, p.depth, f.infixOrder step p.depth ++ p.tokens⟩ (.symbol op) .operator
        behind := by
      rw [hleft.admitSign_reverse_append]
      exact .operator rfl hop fun _ hsigned => absurd hsigned Bool.false_ne_true
    have htokens : e.infixOrder step behind.depth ++ behind.tokens =
        (Tree.binary op e f).infixOrder step p.depth ++ p.tokens := by
      simp [behind, Tree.infixOrder, pushBinary, push, binaryAt_base step _ hop]
    rw [htokens] at hleft'
    rw [List.reverse_append, List.reverse_cons, List.append_assoc]
    exact Reads.append_iff.mpr ⟨_, hright, .cons hoperator hleft'⟩
  | promote _ ih => exact ih hnumber hclosing hrest

/-- From the right a sentence is parsed into the same tokens as from the left, and the cursor is
left at the first character that is not white. -/
theorem parse_backward_of_isSentence {t : Text} (h : IsSentence t) :
    ∃ ts, parse .forward t = .ok ts ∧ parse .backward t = .ok ts ∧
      ((Cursor.whole t .backward).parse .backward).2.pos =
        (t.takeWhile Text.isWhite).length := by
  obtain ⟨ls, ⟨e, hsum⟩, ht⟩ := h
  obtain ⟨-, hvisible⟩ := ht.visible_split hsum.isTerminal hsum.isChain
  have hreads : Reads Settings.standard.nestingStep .backward (.start .backward) ls.reverse []
      ⟨.beforeOperand, 0, e.infixOrder Settings.standard.nestingStep 0 ++ []⟩ :=
    hsum.reads_backward rfl rfl rfl
  rw [← hvisible, List.append_nil] at hreads
  obtain ⟨hbackward, hpos⟩ :=
    parse_backward_of_reads hreads rfl (hsum.order_infixOrder (by decide) 0)
  exact ⟨_, hsum.parse_forward ht, hbackward, hpos⟩

/-- In ` 1 - -2` the first minus is an operator and the second one a sign, from both sides. -/
theorem parse_backward_second_minus :
    ∃ ts, parse .forward [' ', '1', ' ', '-', ' ', '-', '2'] = .ok ts ∧
      parse .backward [' ', '1', ' ', '-', ' ', '-', '2'] = .ok ts ∧
      ((Cursor.whole [' ', '1', ' ', '-', ' ', '-', '2'] .backward).parse .backward).2.pos = 1 := by
  have hsum : Derives .sum
      ([.numeral ['1']] ++ .symbol .minus :: (.symbol .minus :: [.numeral ['2']])) _ :=
    .binary rfl rfl (.promote (.promote (.promote (.promote (derives_digit rfl)))))
      (.promote (.promote (.signed rfl (.promote (derives_digit rfl)))))
  refine parse_backward_of_isSentence ⟨_, ⟨_, hsum⟩, ?_⟩
  exact .white rfl (.lexeme (.numeral ['1']) (.white rfl (.lexeme (.symbol .minus) (.white rfl
    (.lexeme (.symbol .minus) (.lexeme (.numeral ['2']) .nil))))))

end Grammar

end Reckoner
