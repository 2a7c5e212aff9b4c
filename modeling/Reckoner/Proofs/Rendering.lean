import Reckoner.Cursor.Evaluate
import Reckoner.Infix
import Reckoner.Proofs.Number.Plain
import Reckoner.Proofs.Reading.Faults
import Reckoner.Proofs.Sentences
import Reckoner.Proofs.Terms

/-!
# Rendered expressions

A list of tokens that has a value is rendered as a text with this value (`evaluateText_of_toInfix`),
whatever the priorities of its operators are.  The text need not be parsed into the list itself: a
negative number becomes a sign and a numeral in parentheses, a plus sign leaves no token, and the
priorities tell the depth.

Rendering and evaluation go through the list side by side.  `Grammar.Renders` ties the texts on the
one stack to the values on the other: a text of a value spells a unary expression, and the tokens of
its tree leave the value on any stack.  Every token keeps this (`Infix.exists_act_eq_ok`), and so
does a list of them (`Infix.exists_run_eq_ok`).
-/

namespace Reckoner

open Grammar Lexeme

/-! ## Values of trees -/

namespace Grammar

/-- The tokens of the tree leave the value, at any depth and on any stack. -/
def Tree.HasValue (e : Tree) (v : Float) : Prop :=
  ∀ step depth stack, Token.run stack (e.postOrder step depth) = .ok (v :: stack)

namespace Tree.HasValue

variable {op : Operator} {e f : Tree} {v w : Float}

/-- A sign takes the value of its operand. -/
lemma signed {g : Float → Float} (hop : op.unary? = some g) (h : e.HasValue v) :
    (signed op e).HasValue (g v) := by
  intro step depth stack
  have hoperand := h step depth stack
  cases op with
  | plus =>
    obtain rfl := Option.some.inj hop
    rw [postOrder, if_neg (by decide), List.append_nil]
    exact hoperand
  | minus =>
    obtain rfl := Option.some.inj hop
    rw [postOrder, if_pos rfl, Token.run_append hoperand]
    rfl
  | multiply | divide | intDivide | leftParenthesis | rightParenthesis => cases hop

/-- A binary operator takes the values of its operands. -/
lemma binary {g : Float → Float → Float} (hop : op.binary? = some g) (he : e.HasValue v)
    (hf : f.HasValue w) : (binary op e f).HasValue (g v w) := by
  intro step depth stack
  rw [postOrder, List.append_assoc, Token.run_append (he step depth stack),
    Token.run_append (hf step depth (v :: stack))]
  simp [Token.run, Token.act, hop, bind, Except.bind]

end Tree.HasValue

/-- The texts of a value: they spell a unary expression that has the value. -/
def Renders (x : Text) (v : Float) : Prop :=
  ∃ ls e, Derives .unary ls e ∧ Spells ls x ∧ e.HasValue v

variable {op : Operator} {x y : Text} {v w : Float}

/-- Two spellings, one after the other, spell the two rows. -/
lemma Spells.append {ls ms : List Lexeme} (hx : Spells ls x) (hy : Spells ms y) :
    Spells (ls ++ ms) (x ++ y) := by
  induction hx with
  | nil => exact hy
  | white hc _ ih => exact .white hc ih
  | lexeme l _ ih =>
    rw [List.cons_append, List.append_assoc]
    exact .lexeme l ih

/-- A unary expression may stand on either side of an operator. -/
lemma Derives.binary_of_unary {ls ms : List Lexeme} {e f : Tree} (hop : op.isArithmetic)
    (he : Derives .unary ls e) (hf : Derives .unary ms f) :
    Derives .sum (ls ++ .symbol op :: ms) (.binary op e f) := by
  cases op with
  | plus | minus => exact .binary hop rfl he.sum_of_unary hf.product_of_unary
  | multiply => exact .promote (.binary hop rfl he.product_of_unary (.promote hf))
  | divide | intDivide => exact .promote (.promote (.binary hop rfl (.promote he) hf))
  | leftParenthesis | rightParenthesis => exact absurd hop (by decide)

/-- A group of a sum is a unary expression. -/
lemma exists_derives_group {ls : List Lexeme} {e : Tree} (h : Derives .sum ls e)
    (hx : Spells ls x) :
    ∃ ms, Derives .unary ms (.group e) ∧ Spells ms ('(' :: (x ++ [')'])) := by
  refine ⟨_, .promote (.group h), ?_⟩
  have hclosing : Spells [.symbol .rightParenthesis] [')'] :=
    .lexeme (.symbol .rightParenthesis) .nil
  exact .lexeme (.symbol .leftParenthesis) (hx.append hclosing)

/-- An operation is rendered as a group: whatever the levels of the operands are, the parentheses
make it an operand. -/
lemma exists_derives_operation {ls ms : List Lexeme} {e f : Tree} (hop : op.isArithmetic)
    (he : Derives .unary ls e) (hx : Spells ls x) (hf : Derives .unary ms f) (hy : Spells ms y) :
    ∃ ns, Derives .unary ns (.group (.binary op e f)) ∧ Spells ns (Infix.operation op x y) := by
  have hoperator : Spells (.symbol op :: ms) (' ' :: op.toChar :: ' ' :: y) :=
    .white rfl (.lexeme (.symbol op) (.white rfl hy))
  have hgroup := exists_derives_group (he.binary_of_unary hop hf) (hx.append hoperator)
  rwa [List.append_assoc] at hgroup

/-- A group of a sum renders the value of the sum. -/
lemma Renders.group {ls : List Lexeme} {e : Tree} (h : Derives .sum ls e) (hx : Spells ls x)
    (hv : e.HasValue v) : Renders ('(' :: (x ++ [')'])) v := by
  obtain ⟨ms, hgroup, hspells⟩ := exists_derives_group h hx
  exact ⟨ms, _, hgroup, hspells, fun step depth => hv step (depth + 1)⟩

/-- A numeral spells itself. -/
lemma spells_numeral (t : Text) : Spells [.numeral t] t := by
  have h := Spells.lexeme (.numeral t) .nil
  rwa [List.append_nil] at h

/-- A finite number that is not negative is rendered as a numeral that denotes it. -/
lemma exists_operand_eq (hv : v.isFinite) (hsign : Double.isNegative v = false) :
    ∃ t, Numeral.IsNumeral t ∧ Numeral.value t = v ∧ Infix.operand v = t := by
  obtain ⟨t, ht, hvalue, hplain⟩ := Double.exists_plain_eq hv
  have hdouble := Double.ofMagnitude_magnitude v
  rw [hsign] at hdouble
  rw [hsign, if_neg Bool.false_ne_true] at hplain
  refine ⟨t, ht, hvalue.trans hdouble, ?_⟩
  unfold Infix.operand
  rw [hplain]
  split
  · exact absurd (ht.isPart '-' List.mem_cons_self) (by decide)
  · rfl

/-- A finite number is rendered with its value. -/
lemma renders_operand (hv : v.isFinite) : Renders (Infix.operand v) v := by
  have hleaves : ∀ t, (Tree.numeral t).HasValue (Numeral.value t) := fun _ _ _ _ => rfl
  cases hsign : Double.isNegative v with
  | false =>
    obtain ⟨t, ht, rfl, htext⟩ := exists_operand_eq hv hsign
    rw [htext]
    exact ⟨_, _, .promote (.numeral ht), spells_numeral t, hleaves t⟩
  | true =>
    -- The minus of a negative number is read as a sign, and turns the sign of the magnitude.
    obtain ⟨t, ht, hvalue, hplain⟩ := Double.exists_plain_eq hv
    have hdouble := Double.ofMagnitude_magnitude v
    rw [hsign, if_pos rfl] at hplain
    rw [hsign] at hdouble
    have htext : Infix.operand v = '(' :: ('-' :: t ++ [')']) := by
      rw [Infix.operand, hplain]
      rfl
    have hminus : Operator.minus.unary? = some Float.neg := rfl
    have hneg := (hleaves t).signed hminus
    rw [hvalue, Double.neg_ofMagnitude (Double.isFinite_iff.mp hv), hdouble] at hneg
    have hsigned : Derives .unary (.symbol .minus :: [.numeral t]) _ :=
      .signed rfl (.promote (.numeral ht))
    rw [htext]
    exact .group hsigned.sum_of_unary (.lexeme (.symbol .minus) (spells_numeral t)) hneg

/-- A sign in front of a rendered operand renders the value that the sign gives it. -/
lemma Renders.signed {g : Float → Float} (hop : op.unary? = some g) (hx : Renders x v) :
    Renders (Infix.signed op x) (g v) := by
  obtain ⟨ls, e, he, hspells, hvalue⟩ := hx
  have hsign : op.isSign ∧ Infix.signed op x = (Lexeme.symbol op).text ++ x := by
    cases op <;> first | exact ⟨rfl, rfl⟩ | cases hop
  rw [hsign.2]
  exact ⟨_, _, .signed hsign.1 he, .lexeme (.symbol op) hspells, hvalue.signed hop⟩

/-- A rendered operation has the value of the operation. -/
lemma Renders.operation {g : Float → Float → Float} (hop : op.binary? = some g)
    (hx : Renders x v) (hy : Renders y w) : Renders (Infix.operation op x y) (g v w) := by
  obtain ⟨ls, e, he, hlspells, hv⟩ := hx
  obtain ⟨ms, f, hf, hmspells, hw⟩ := hy
  have harithmetic : op.isArithmetic := by
    cases op <;> first | rfl | cases hop
  obtain ⟨ns, hoperation, hspells⟩ :=
    exists_derives_operation harithmetic he hlspells hf hmspells
  exact ⟨ns, _, hoperation, hspells, fun step depth => (hv.binary hop hw) step (depth + 1)⟩

end Grammar

/-! ## Rendering and evaluating -/

open Grammar

/-- The texts of a value are evaluated to it, in both directions. -/
lemma Grammar.Renders.evaluateText {x : Text} {v : Float} (h : Renders x v) (dir : Direction) :
    evaluateText dir x = .ok (some v) := by
  obtain ⟨ls, e, he, hspells, hvalue⟩ := h
  have hsum := he.sum_of_unary
  have hforward := hsum.parse_forward hspells
  have hparse : parse dir x = .ok (e.postOrder Settings.standard.nestingStep 0) := by
    cases dir with
    | forward => exact hforward
    | backward =>
      obtain ⟨ts, hts, hbackward, -⟩ := parse_backward_of_isSentence ⟨ls, ⟨e, hsum⟩, hspells⟩
      rwa [hforward.symm.trans hts]
  have hevaluate := evaluate_eq_ok_iff.mpr (hvalue Settings.standard.nestingStep 0 [])
  rw [Reckoner.evaluateText, Cursor.evaluate_fst]
  change parse dir x >>= _ = _
  rw [hparse]
  change (evaluate _).mapError _ = _
  rw [hevaluate]
  rfl

variable {texts : List Text} {values values' : List Float}

/-- A token that can be evaluated on the values can be rendered on the texts, and leaves the text of
its result. -/
lemma Infix.exists_act_eq_ok {t : Token} (h : List.Forall₂ Renders texts values)
    (hfinite : ∀ v p, t = .number v p → v.isFinite) (hact : t.act values = .ok values') :
    ∃ texts', act texts t = .ok texts' ∧ List.Forall₂ Renders texts' values' := by
  cases t with
  | number v p =>
    obtain rfl := Except.ok.inj hact
    exact ⟨_, rfl, .cons (renders_operand (hfinite v p rfl)) h⟩
  | empty tag p => cases hact
  | unary op p =>
    cases h with
    | nil => cases hact
    | @cons x v texts values hx h =>
      cases hop : op.unary? with
      | none => simp [Token.act, hop] at hact
      | some g =>
        simp only [Token.act, hop] at hact
        obtain rfl := Except.ok.inj hact
        exact ⟨_, rfl, .cons (hx.signed hop) h⟩
  | binary op p =>
    cases h with
    | nil => cases hact
    | @cons y w texts values hy h =>
      cases h with
      | nil => cases hact
      | @cons x v texts values hx h =>
        cases hop : op.binary? with
        | none => simp [Token.act, hop] at hact
        | some g =>
          simp only [Token.act, hop] at hact
          obtain rfl := Except.ok.inj hact
          exact ⟨_, rfl, .cons (hx.operation hop hy) h⟩

/-- A list of tokens that can be evaluated can be rendered, and leaves texts of the values. -/
theorem Infix.exists_run_eq_ok {ts : List Token} (h : List.Forall₂ Renders texts values)
    (hfinite : ∀ v p, .number v p ∈ ts → v.isFinite)
    (hrun : Token.run values ts = .ok values') :
    ∃ texts', run texts ts = .ok texts' ∧ List.Forall₂ Renders texts' values' := by
  induction ts generalizing texts values with
  | nil =>
    obtain rfl := Except.ok.inj hrun
    exact ⟨texts, rfl, h⟩
  | cons t ts ih =>
    obtain ⟨next, hact, hrest⟩ := Progress.bind_eq_ok_iff.mp hrun
    have hfirst : ∀ v p, t = .number v p → v.isFinite := by
      rintro v p rfl
      exact hfinite v p List.mem_cons_self
    obtain ⟨middle, hmiddle, hnext⟩ := exists_act_eq_ok h hfirst hact
    obtain ⟨texts', htexts, hend⟩ :=
      ih hnext (fun v p hv => hfinite v p (List.mem_cons_of_mem t hv)) hrest
    refine ⟨texts', ?_, hend⟩
    rw [run, hmiddle]
    exact htexts

/-- A list of finite numbers and operators that has a value is rendered as a text that is evaluated
to this value, from the left and from the right. -/
theorem evaluateText_of_toInfix {ts : List Token} {v : Float}
    (hfinite : ∀ x p, .number x p ∈ ts → x.isFinite) (h : evaluate ts = .ok (some v)) :
    ∃ t, toInfix ts = .ok t ∧ ∀ dir, evaluateText dir t = .ok (some v) := by
  have hrun := evaluate_eq_ok_iff.mp h
  obtain ⟨texts, htexts, hvalues⟩ := Infix.exists_run_eq_ok .nil hfinite hrun
  obtain ⟨x, texts, hx, hrest, rfl⟩ := List.forall₂_cons_right_iff.mp hvalues
  obtain rfl := List.forall₂_nil_right_iff.mp hrest
  refine ⟨x, ?_, hx.evaluateText⟩
  rw [toInfix, htexts]
  simp [bind, Except.bind, pure, Except.pure, List.intercalate]

/-- The tokens of `+(-2.5) - -3` may have any priorities: the text is in parentheses, and its value
is that of the tokens from both sides. -/
theorem evaluateText_of_toInfix_signed :
    toInfix [.number (Double.ofMagnitude true 0x4004000000000000) 7, .unary .plus (-3),
        .number (Double.ofMagnitude false 0x4008000000000000) 0, .unary .minus 99,
        .binary .minus 5] =
      .ok ['(', '+', '(', '-', '2', '.', '5', ')', ' ', '-', ' ', '-', '3', ')'] ∧
    ∀ dir, evaluateText dir
        ['(', '+', '(', '-', '2', '.', '5', ')', ' ', '-', ' ', '-', '3', ')'] =
      .ok (some (Double.ofMagnitude true 0x4004000000000000 -
        Float.neg (Double.ofMagnitude false 0x4008000000000000))) := by
  let ts : List Token := [.number (Double.ofMagnitude true 0x4004000000000000) 7, .unary .plus (-3),
    .number (Double.ofMagnitude false 0x4008000000000000) 0, .unary .minus 99, .binary .minus 5]
  have hleft : Double.plain (Double.ofMagnitude true 0x4004000000000000) =
      ['-', '2', '.', '5'] := by
    decide +kernel
  have hright : Double.plain (Double.ofMagnitude false 0x4008000000000000) = ['3'] := by
    decide +kernel
  have htext : toInfix ts =
      .ok ['(', '+', '(', '-', '2', '.', '5', ')', ' ', '-', ' ', '-', '3', ')'] := by
    simp only [toInfix, ts, Infix.run, Infix.act, Infix.operand, hleft, hright]
    rfl
  have hfinite : ∀ x p, .number x p ∈ ts → x.isFinite := by
    intro x p hx
    simp only [ts, List.mem_cons, Token.number.injEq, reduceCtorEq, List.not_mem_nil, or_false,
      false_or] at hx
    rcases hx with ⟨rfl, -⟩ | ⟨rfl, -⟩
    · decide
    · decide
  obtain ⟨t, ht, hvalue⟩ := evaluateText_of_toInfix hfinite rfl
  rw [htext] at ht
  obtain rfl := Except.ok.inj ht
  exact ⟨htext, hvalue⟩

end Reckoner
