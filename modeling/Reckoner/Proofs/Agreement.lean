import Reckoner.Proofs.Acceptance
import Reckoner.Proofs.Extraction
import Reckoner.Proofs.Reading.Windows
import Reckoner.Proofs.Session.Rows

/-!
# Two ways to evaluate in front of a position

A session takes in the lexemes in front of a position, without any grammar, and parses them from the
left.  A cursor at the position parses from the right and stops where the grammar tells it to.  The
two may end at different places, and one may fail where the other does not; but where both have a
value, it is the same value (`Session.evaluateAt_eq_evaluate_backward`), since both have the same
tokens (`parse_backward_eq_of_find?`).

What is taken in has the same lexemes from both sides, as from the right no two numerals stand side
by side.  If it is a sum, then the cursor takes all of it too
(`Grammar.Derives.eq_postOrder_of_pass`), and what stands further left stops the cursor: a foreign
character ends the expression, and an opening parenthesis is one without a partner.  From the left a
text may be accepted without being a sum, but then it ends with an operator, and from the right
nothing is read of it.
-/

namespace Reckoner

open Lexeme Grammar Progress

/-! ## Blanks at the beginning -/

/-- White characters in front of a text leave its visible lexemes as they are. -/
lemma visible_split_dropWhile (t : Text) :
    visible (split .forward (t.dropWhile Text.isBlank)) = visible (split .forward t) := by
  induction t with
  | nil => rfl
  | cons c t ih =>
    by_cases hc : Text.isBlank c
    · rw [List.dropWhile_cons_of_pos hc, ih, split_white_cons .forward (Text.isWhite_of_isBlank hc)]
      rfl
    · rw [List.dropWhile_cons_of_neg hc]

/-- From the left, a text has the tokens that it has without the blanks at its beginning. -/
lemma parse_forward_dropWhile {t : Text} {ts : List Token} :
    parse .forward (t.dropWhile Text.isBlank) = .ok ts ↔ parse .forward t = .ok ts := by
  rw [parse_forward_eq_ok_iff, parse_forward_eq_ok_iff, visible_split_dropWhile]

/-! ## What a cursor finds in what is taken in -/

section Passes

variable {step start pos : Int} {row left : List Lexeme} {op : Operator} {r : Progress}

/-- From the right, no arithmetic symbol is taken where reading begins. -/
lemma Progress.Takes.ne_arithmetic {signed : Bool} {l : Lexeme} {cat : Category}
    (h : Takes step .backward signed (.start .backward) l cat r) (hop : op.isArithmetic) :
    l ≠ .symbol op := by
  rintro rfl
  have htakes := (takes_arithmetic_iff hop).mp ⟨cat, h⟩
  simp [Progress.start, Expectation.start, Expectation.operandEnd, Expectation.nothing] at htakes

/-- From the right, nothing is read of a row that ends with an arithmetic symbol. -/
lemma eq_start_of_pass_backward (hop : op.isArithmetic)
    (hrow : (visible row).head? = some (.symbol op))
    (h : (Pass.backward step (.start .backward) start pos row).progress = .ok r) :
    r = .start .backward := by
  obtain ⟨passed, rest, rfl, -, hreads⟩ := exists_reads_of_pass_backward h
  cases hpassed : visible passed with
  | nil =>
    rw [hpassed] at hreads
    exact Reads.nil_iff.mp hreads
  | cons l ls =>
    rw [hpassed] at hreads
    obtain ⟨_, _, htakes, -⟩ := Reads.cons_iff.mp hreads
    have hfirst : some l = some (.symbol op) := by
      rw [← hrow, visible, List.filter_append, ← visible, hpassed]
      rfl
    exact absurd (Option.some.inj hfirst) (htakes.ne_arithmetic hop)

/-- Where a run from the right takes a row and no pass goes on behind it, the pass over the row ends
with the reader of the run. -/
lemma eq_of_reads_of_stop {p q : Progress}
    (hreads : Reads step .backward p (visible row) (visible left) q)
    (hstop : ∀ start pos, Pass.backward step q start pos left = ⟨.ok q, start, pos⟩)
    (h : (Pass.backward step p start pos (row ++ left)).progress = .ok r) : r = q := by
  obtain ⟨_, hpass⟩ := pass_backward_append start pos hreads
  rw [hpass, hstop] at h
  exact (Except.ok.inj h).symm

/-- From the right, where the visible lexemes up to an opening parenthesis, to a foreign character or
to the beginning are a derived row, tokens that can be ordered are those of its tree. -/
theorem Grammar.Derives.eq_postOrder_of_pass {ls : List Lexeme} {e : Tree} {ts : List Token}
    (hstep : 2 < step) (he : Derives .sum ls e) (hrow : visible row = ls.reverse)
    (hleft : ∀ l ∈ left.head?, l = .symbol .leftParenthesis ∨ ∃ c, l = .foreign c)
    (h : (Pass.backward step (.start .backward) start pos (row ++ left)).progress = .ok r)
    (horder : order r.tokens = some ts) : ts = e.postOrder step 0 := by
  have htree := he.order_infixOrder hstep 0
  have hsigned : admitSign (visible left) → Reads step .backward (.start .backward) (visible row)
      (visible left) ⟨.beforeOperand, 0, e.infixOrder step 0⟩ := by
    intro hrest
    have hreads : Reads step .backward (.start .backward) ls.reverse (visible left)
        ⟨.beforeOperand, 0, e.infixOrder step 0 ++ []⟩ := he.reads_backward rfl rfl hrest
    rwa [List.append_nil, ← hrow] at hreads
  cases left with
  | nil =>
    obtain rfl := eq_of_reads_of_stop (hsigned rfl) (fun _ _ => rfl) h
    exact Option.some.inj (horder.symm.trans htree)
  | cons l left =>
    obtain rfl | ⟨c, rfl⟩ := hleft l rfl
    · -- The opening parenthesis has no partner in the row.
      obtain ⟨_, hpass⟩ := pass_backward_append start pos (hsigned rfl)
      rw [hpass] at h
      cases h
    · by_cases hsign : ∃ op : Operator, op.isSign ∧ ls.head? = some (.symbol op)
      · -- The sign becomes an operator, which has no left operand.
        obtain ⟨op, hop, hfirst⟩ := hsign
        obtain ⟨ms, rfl⟩ := List.head?_eq_some_iff.mp hfirst
        obtain ⟨f, hf⟩ := Derivable.of_sign_cons hop ⟨e, he⟩
        have hforeign : admitSign (visible (.foreign c :: left)) = false := rfl
        have hreads := hf.reads_backward_sign_as_operator step hop hforeign
        rw [← hrow] at hreads
        obtain rfl := eq_of_reads_of_stop hreads (fun _ _ => rfl) h
        cases horder.symm.trans (f.order_binary_infixOrder rfl step 0)
      · have hnosign : ∀ op : Operator, op.isSign → ls.head? ≠ some (.symbol op) :=
          fun op hop hfirst => hsign ⟨op, hop, hfirst⟩
        have hreads := he.reads_backward_of_not_signed step hnosign (visible (.foreign c :: left))
        rw [← hrow] at hreads
        obtain rfl := eq_of_reads_of_stop hreads (fun _ _ => rfl) h
        exact Option.some.inj (horder.symm.trans htree)

/-- From the right, nothing is read of a row that is read from the left up to a place where no
parenthesis is open and an operand is missing. -/
lemma eq_start_of_pass_of_operand {p : Progress} {rest : List Lexeme}
    (hreads : Reads step .forward (.start .forward) (visible row.reverse) rest p)
    (hne : visible row.reverse ≠ []) (hdepth : p.depth = 0) (hoperand : p.expected.operator = false)
    (h : (Pass.backward step (.start .backward) start pos (row ++ left)).progress = .ok r) :
    r = .start .backward := by
  obtain ⟨ms, op, hop, hlast⟩ := hreads.exists_eq_append_symbol hne hdepth hoperand
  rw [visible_reverse, List.reverse_eq_iff, List.reverse_append] at hlast
  refine eq_start_of_pass_backward hop ?_ h
  rw [visible, List.filter_append, ← visible, hlast]
  rfl

end Passes

/-! ## Where both have tokens -/

/-- In a text without line characters, what is not taken in where no parenthesis waits is an opening
parenthesis or foreign. -/
lemma Span.eq_of_takeIn_eq_none {t : Text} {l : Lexeme} (hl : l ∈ split .backward t.reverse)
    (hlines : ∀ c ∈ t, Text.isWhite c → Text.isBlank c) (h : takeIn true 0 l = none) :
    l = .symbol .leftParenthesis ∨ ∃ c, l = .foreign c := by
  cases l with
  | foreign c => exact .inr ⟨c, rfl⟩
  | symbol op => cases op <;> first | exact .inl rfl | cases h
  | white c =>
    obtain hwhite | ⟨_, hforeign⟩ := isKnown_or_foreign_of_mem_splitFrom .backward hl
    · have hmem : c ∈ t := List.mem_reverse.mp (mem_of_white_mem_split hl)
      simp [takeIn, hlines c hmem hwhite] at h
    · cases hforeign
  | numeral w => cases h

/-- What is taken in is known, and has the same visible lexemes from the left. -/
lemma Span.visible_split_of_taken {t : Text} {row left : List Lexeme} {blanks : Bool}
    {waiting n : Nat} (hsplit : split .backward t.reverse = row ++ left)
    (htaken : row.foldlM (takeIn blanks) waiting = some n) :
    (∀ l ∈ row.reverse, l.IsKnown) ∧
      visible (split .forward (joined .forward row.reverse)) = visible row.reverse := by
  obtain ⟨hknown, hchain⟩ := isKnown_and_isChain_of_taken hsplit htaken
  have hreverse : ∀ l ∈ row.reverse, l.IsKnown := by simpa using hknown
  refine ⟨hreverse, ?_⟩
  rw [split_joined .forward hreverse (isChain_apart_reverse hchain)]

/-- Where an expression is found in front of a position and is parsed from the left, and a cursor at
the position parses one from the right, both have the same tokens. -/
theorem parse_backward_eq_of_find? {t : Text} {q : Nat} (hq : q ≤ t.length)
    (hlines : ∀ c ∈ t, Text.isWhite c → Text.isBlank c) (hclosing : t[q]? ≠ some ')') {span : Span}
    (hspan : Span.find? t q true true = some span) {ts us : List Token}
    (hforward : parse .forward (span.textOf t) = .ok ts) (hts : ts ≠ [])
    (hbackward : ((Cursor.place t q none none).parse .backward).1 = .ok us) (hus : us ≠ []) :
    us = ts := by
  obtain ⟨row, left, hsplit, htaken, hstop, htext⟩ := Span.exists_taken_of_find? hclosing hspan
  obtain ⟨hknown, hlexemes⟩ := Span.visible_split_of_taken hsplit htaken
  rw [htext, parse_forward_dropWhile] at hforward
  obtain ⟨p, hreads, hdepth, horder⟩ := parse_forward_eq_ok_iff.mp hforward
  rw [hlexemes] at hreads
  -- The cursor passes over the same lexemes, and over those further left.
  rw [Cursor.parse_backward_fst hq rfl, hsplit] at hbackward
  obtain ⟨r, hpass, hfinish⟩ := bind_eq_ok_iff.mp hbackward
  obtain ⟨-, horder'⟩ := finish_eq_ok_iff.mp hfinish
  cases hoperator : p.expected.operator with
  | true =>
    obtain ⟨hbalanced, -⟩ := order_eq_some_iff.mp ⟨horder, hts⟩
    obtain ⟨j, haccounts⟩ := hreads.accounts (isTerminal_of_mem_visible hknown)
    obtain ⟨e, he⟩ := haccounts.derivable hdepth hbalanced hoperator
    have hinside : ∀ c ∈ t.take q, Text.isWhite c → Text.isBlank c :=
      fun c hc => hlines c (List.mem_of_mem_take hc)
    have hleft : ∀ l ∈ left.head?, l = .symbol .leftParenthesis ∨ ∃ c, l = .foreign c := by
      intro l hl
      have hmem : l ∈ split .backward (t.take q).reverse := by
        rw [hsplit]
        exact List.mem_append_right row (List.mem_of_mem_head? hl)
      exact Span.eq_of_takeIn_eq_none hmem hinside (hstop l hl)
    have hrow : visible row = (visible row.reverse).reverse := by
      rw [visible_reverse, List.reverse_reverse]
    have hparse := he.parse_forward (spells_visible hknown)
    rw [he.eq_postOrder_of_pass (by decide) hrow hleft hpass horder']
    exact Except.ok.inj (hparse.symm.trans hforward)
  | false =>
    have hne : visible row.reverse ≠ [] := by
      intro hnothing
      rw [hnothing] at hreads
      obtain rfl := Reads.nil_iff.mp hreads
      exact hts (Option.some.inj horder).symm
    obtain rfl := eq_start_of_pass_of_operand hreads hne hdepth hoperator hpass
    exact absurd (Option.some.inj horder').symm hus

/-! ## Where both have a value -/

/-- A value is that of at least one token. -/
lemma exists_tokens_of_value {x : Except Fault (List Token)} {v : Float}
    (h : (x >>= fun ts => (evaluate ts).mapError .valueless) = .ok (some v)) :
    ∃ ts, x = .ok ts ∧ ts ≠ [] ∧ evaluate ts = .ok (some v) := by
  obtain ⟨ts, hts, hvalue⟩ := bind_eq_ok_iff.mp h
  have hevaluate := mapError_eq_ok_iff.mp hvalue
  refine ⟨ts, hts, ?_, hevaluate⟩
  rintro rfl
  cases hevaluate

namespace Session

/-- In a text without line characters, at a position with no closing parenthesis behind it: where a
session, whatever it has done before, has a value for the expression in front of the position, and a
cursor at the position has one from the right, the two values are the same. -/
theorem evaluateAt_eq_evaluate_backward {t : Text} {q : Nat} {v w : Float} (limit : Option Int)
    (ops : List Operation) (hq : q ≤ t.length)
    (hlines : ∀ c ∈ t, Text.isWhite c → Text.isBlank c) (hclosing : t[q]? ≠ some ')')
    (hat : (((start limit).after ops).evaluateAt t (some q)).result = .ok (some v))
    (hcursor : ((Cursor.place t q none none).evaluate .backward).1 = .ok (some w)) : v = w := by
  have hspan : extract t (some q) none none = Span.find? t q true true := rfl
  unfold evaluateAt at hat
  split at hat
  · cases hat
  rename_i span hfound
  rw [hspan] at hfound
  have hfresh := (evaluate_step (faithful_start_after limit ops) .forward (span.textOf t)).1
  obtain ⟨ts, hforward, hts, hv⟩ := exists_tokens_of_value (hfresh.symm.trans hat)
  rw [Cursor.evaluate_fst] at hcursor
  obtain ⟨us, hbackward, hus, hw⟩ := exists_tokens_of_value hcursor
  obtain rfl := parse_backward_eq_of_find? hq hlines hclosing hfound hforward hts hbackward hus
  exact Option.some.inj (Except.ok.inj (hv.symm.trans hw))

/-- In `a 1.5*-(2 + 3) b`, behind the parenthesis, both ways have a value, and so the same one. -/
theorem evaluateAt_eq_evaluate_backward_behind_letter :
    ∃ v w, (((start none).after []).evaluateAt
        ['a', ' ', '1', '.', '5', '*', '-', '(', '2', ' ', '+', ' ', '3', ')', ' ', 'b']
        (some (14 : Nat))).result = .ok (some v) ∧
      ((Cursor.place
        ['a', ' ', '1', '.', '5', '*', '-', '(', '2', ' ', '+', ' ', '3', ')', ' ', 'b']
        (14 : Nat) none none).evaluate .backward).1 = .ok (some w) ∧ v = w := by
  obtain ⟨v, hat⟩ : ∃ v, (((start none).after []).evaluateAt
      ['a', ' ', '1', '.', '5', '*', '-', '(', '2', ' ', '+', ' ', '3', ')', ' ', 'b']
      (some (14 : Nat))).result = .ok (some v) := ⟨_, rfl⟩
  obtain ⟨w, hcursor⟩ : ∃ w, ((Cursor.place
      ['a', ' ', '1', '.', '5', '*', '-', '(', '2', ' ', '+', ' ', '3', ')', ' ', 'b']
      (14 : Nat) none none).evaluate .backward).1 = .ok (some w) := ⟨_, rfl⟩
  refine ⟨v, w, hat, hcursor, ?_⟩
  apply evaluateAt_eq_evaluate_backward none [] ?inside ?lines ?closing hat hcursor
  case inside => decide
  case lines => simp [Text.isWhite, Text.isBlank]
  case closing => decide

end Session

end Reckoner
