import Mathlib.Logic.ExistsUnique
import Reckoner.Evaluation
import Reckoner.Proofs.Reading.Step

/-!
# Lists of tokens as terms

A term is a tree with numbers at its leaves, a sign at a node with one branch and an arithmetic
operator at a node with two.  The lists of tokens that have a value are the post-orders of terms:
each of them is that of one term only, its value is the value of this term, and every other list
fails, unless it is empty (`evaluate_iff_postOrder`).

A term leaves its value on any stack (`Term.run_postOrder`).  Conversely, the stack of a run is
always that of a row of terms, one for each value, and these terms, one after the other, are the
tokens that have been run (`Term.exists_row_of_run`): a number begins a new term, and an operator
joins the latest ones.  No post-order ends with another one, so the last tokens of a list tell the
last term (`Term.eq_of_append_postOrder`).
-/

namespace Reckoner

/-! ## What operators mean -/

namespace Operator

variable {op : Operator}

/-- The signs are the symbols with a meaning in front of an operand. -/
lemma isSome_unary? (op : Operator) : op.unary?.isSome = op.isSign := by
  cases op <;> rfl

/-- The arithmetic symbols are those with a meaning between two operands. -/
lemma isSome_binary? (op : Operator) : op.binary?.isSome = op.isArithmetic := by
  cases op <;> rfl

/-- What a sign does to its operand. -/
def unary (op : Operator) (hop : op.isSign) : Float → Float :=
  op.unary?.get (by rwa [isSome_unary?])

/-- What an arithmetic operator does to its left and its right operand. -/
def binary (op : Operator) (hop : op.isArithmetic) : Float → Float → Float :=
  op.binary?.get (by rwa [isSome_binary?])

/-- A symbol with a meaning in front of an operand is a sign with this meaning. -/
lemma unary?_eq_some_iff {g : Float → Float} :
    op.unary? = some g ↔ ∃ hop : op.isSign, op.unary hop = g := by
  unfold unary
  constructor
  · intro h
    have hop : op.isSign := by rw [← isSome_unary?, h, Option.isSome_some]
    exact ⟨hop, by simp only [h, Option.get_some]⟩
  · rintro ⟨hop, rfl⟩
    exact (Option.some_get _).symm

/-- A symbol with a meaning between two operands is an arithmetic operator with this meaning. -/
lemma binary?_eq_some_iff {g : Float → Float → Float} :
    op.binary? = some g ↔ ∃ hop : op.isArithmetic, op.binary hop = g := by
  unfold binary
  constructor
  · intro h
    have hop : op.isArithmetic := by rw [← isSome_binary?, h, Option.isSome_some]
    exact ⟨hop, by simp only [h, Option.get_some]⟩
  · rintro ⟨hop, rfl⟩
    exact (Option.some_get _).symm

end Operator

/-! ## Runs -/

namespace Token

variable {stack stack' : List Float} {t : Token} {ts us : List Token}

/-- A list of tokens goes on with the stack that another one leaves. -/
lemma run_append (h : run stack ts = .ok stack') : run stack (ts ++ us) = run stack' us := by
  induction ts generalizing stack with
  | nil =>
    obtain rfl := Except.ok.inj h
    rfl
  | cons t ts ih =>
    obtain ⟨next, hact, hrest⟩ := Progress.bind_eq_ok_iff.mp h
    rw [List.cons_append, run, hact]
    exact ih hrest

/-- A run over one token is what this token does. -/
lemma run_singleton (stack : List Float) (t : Token) : run stack [t] = t.act stack := by
  unfold run
  cases t.act stack <;> rfl

end Token

/-- The value of a list of tokens that can be evaluated is the only one on the stack. -/
lemma evaluate_eq_ok_iff {ts : List Token} {v : Float} :
    evaluate ts = .ok (some v) ↔ Token.run [] ts = .ok [v] := by
  cases ts with
  | nil => simp [evaluate, Token.run]
  | cons t ts =>
    unfold evaluate
    rw [Progress.bind_eq_ok_iff]
    constructor
    · rintro ⟨stack, hrun, hlast⟩
      split at hlast
      · obtain rfl := Option.some.inj (Except.ok.inj hlast)
        exact hrun
      · cases hlast
    · intro hrun
      exact ⟨[v], hrun, rfl⟩

/-- Only the empty list of tokens has no value without being an error. -/
lemma eq_nil_of_evaluate {ts : List Token} (h : evaluate ts = .ok none) : ts = [] := by
  cases ts with
  | nil => rfl
  | cons t ts =>
    unfold evaluate at h
    obtain ⟨stack, -, hlast⟩ := Progress.bind_eq_ok_iff.mp h
    split at hlast <;> cases hlast

/-! ## Terms -/

/-- The trees of numbers, signs and arithmetic operators, all with their priorities. -/
inductive Term
  | number (value : Float) (priority : Int)
  | unary (op : Operator) (priority : Int) (hop : op.isSign) (operand : Term)
  | binary (op : Operator) (priority : Int) (hop : op.isArithmetic) (left right : Term)

namespace Term

/-- The tokens of a term, every operator behind its operands. -/
def postOrder : Term → List Token
  | number v p => [.number v p]
  | unary op p _ e => e.postOrder ++ [.unary op p]
  | binary op p _ e f => e.postOrder ++ f.postOrder ++ [.binary op p]

/-- The value of a term. -/
def value : Term → Float
  | number v _ => v
  | unary op _ hop e => op.unary hop e.value
  | binary op _ hop e f => op.binary hop e.value f.value

/-- A term leaves its value on any stack. -/
theorem run_postOrder (e : Term) (stack : List Float) :
    Token.run stack e.postOrder = .ok (e.value :: stack) := by
  induction e generalizing stack with
  | number v p => rfl
  | unary op p hop e ih =>
    have hmeaning := Operator.unary?_eq_some_iff.mpr ⟨hop, rfl⟩
    rw [postOrder, Token.run_append (ih stack), Token.run_singleton]
    simp only [Token.act, hmeaning, value]
  | binary op p hop e f ihe ihf =>
    have hmeaning := Operator.binary?_eq_some_iff.mpr ⟨hop, rfl⟩
    rw [postOrder, List.append_assoc, Token.run_append (ihe stack),
      Token.run_append (ihf (e.value :: stack)), Token.run_singleton]
    simp only [Token.act, hmeaning, value]

/-! ### Rows of terms -/

/-- The tokens of a row of terms, of which the latest comes first. -/
def tokens (es : List Term) : List Token := es.reverse.flatMap postOrder

/-- The latest term of a row has the last tokens. -/
lemma tokens_cons (e : Term) (es : List Term) : tokens (e :: es) = tokens es ++ e.postOrder := by
  simp [tokens]

variable {es : List Term} {stack : List Float} {t : Token} {ts : List Token}

/-- On the values of a row of terms, a token leaves the values of a row that has it at its end. -/
lemma exists_row_of_act (h : t.act (es.map value) = .ok stack) :
    ∃ fs, fs.map value = stack ∧ tokens fs = tokens es ++ [t] := by
  unfold Token.act at h
  split at h
  · rename_i v p
    exact ⟨number v p :: es, Except.ok.inj h, tokens_cons _ _⟩
  · rename_i op p
    split at h
    · rename_i y x rest hvalues
      split at h
      · rename_i g hmeaning
        obtain ⟨hop, rfl⟩ := Operator.binary?_eq_some_iff.mp hmeaning
        obtain ⟨f, row, rfl, rfl, hrow⟩ := List.map_eq_cons_iff.mp hvalues
        obtain ⟨e, es, rfl, rfl, rfl⟩ := List.map_eq_cons_iff.mp hrow
        refine ⟨binary op p hop e f :: es, Except.ok.inj h, ?_⟩
        simp only [tokens_cons, postOrder, List.append_assoc]
      · cases h
    · cases h
  · rename_i op p
    split at h
    · rename_i x rest hvalues
      split at h
      · rename_i g hmeaning
        obtain ⟨hop, rfl⟩ := Operator.unary?_eq_some_iff.mp hmeaning
        obtain ⟨e, es, rfl, rfl, rfl⟩ := List.map_eq_cons_iff.mp hvalues
        refine ⟨unary op p hop e :: es, Except.ok.inj h, ?_⟩
        simp only [tokens_cons, postOrder, List.append_assoc]
      · cases h
    · cases h
  · cases h

/-- On the values of a row of terms, a run leaves the values of a row that has the tokens of the run
at its end. -/
theorem exists_row_of_run (h : Token.run (es.map value) ts = .ok stack) :
    ∃ fs, fs.map value = stack ∧ tokens fs = tokens es ++ ts := by
  induction ts generalizing es with
  | nil => exact ⟨es, Except.ok.inj h, (List.append_nil _).symm⟩
  | cons t ts ih =>
    obtain ⟨next, hact, hrest⟩ := Progress.bind_eq_ok_iff.mp h
    obtain ⟨fs, rfl, hfs⟩ := exists_row_of_act hact
    obtain ⟨gs, hgs, htokens⟩ := ih hrest
    refine ⟨gs, hgs, ?_⟩
    rw [htokens, hfs, List.append_assoc, List.singleton_append]

/-- The tokens at the end of a list tell the term that they make up, and where it begins. -/
theorem eq_of_append_postOrder {e f : Term} {us vs : List Token}
    (h : us ++ e.postOrder = vs ++ f.postOrder) : us = vs ∧ e = f := by
  induction e generalizing f us vs with
  | number v p =>
    cases f with
    | number w q =>
      obtain ⟨hfront, hlast⟩ := List.append_singleton_inj.mp h
      obtain ⟨rfl, rfl⟩ := Token.number.inj hlast
      exact ⟨hfront, rfl⟩
    | unary | binary =>
      simp only [postOrder, ← List.append_assoc] at h
      cases (List.append_singleton_inj.mp h).2
  | unary op p hop e ih =>
    simp only [postOrder, ← List.append_assoc] at h
    cases f with
    | unary op' q hop' f =>
      simp only [postOrder, ← List.append_assoc] at h
      obtain ⟨hfront, hlast⟩ := List.append_singleton_inj.mp h
      obtain ⟨rfl, rfl⟩ := Token.unary.inj hlast
      obtain ⟨rfl, rfl⟩ := ih hfront
      exact ⟨rfl, rfl⟩
    | number | binary =>
      simp only [postOrder, ← List.append_assoc] at h
      cases (List.append_singleton_inj.mp h).2
  | binary op p hop e e' ihe ihe' =>
    simp only [postOrder, ← List.append_assoc] at h
    cases f with
    | binary op' q hop' f f' =>
      simp only [postOrder, ← List.append_assoc] at h
      obtain ⟨hfront, hlast⟩ := List.append_singleton_inj.mp h
      obtain ⟨rfl, rfl⟩ := Token.binary.inj hlast
      -- The right operand ends where the operator begins, and the left one where the right begins.
      obtain ⟨hleft, rfl⟩ := ihe' hfront
      obtain ⟨rfl, rfl⟩ := ihe hleft
      exact ⟨rfl, rfl⟩
    | number | unary =>
      simp only [postOrder, ← List.append_assoc] at h
      cases (List.append_singleton_inj.mp h).2

/-- A list of tokens is the post-order of one term at most. -/
lemma postOrder_injective : Function.Injective postOrder := by
  intro e f h
  have hrow : [] ++ e.postOrder = [] ++ f.postOrder := by rw [h]
  exact (eq_of_append_postOrder hrow).2

/-- The post-order of a term has the value of the term. -/
lemma evaluate_postOrder (e : Term) : evaluate e.postOrder = .ok (some e.value) :=
  evaluate_eq_ok_iff.mpr (e.run_postOrder [])

/-- A list of tokens with a value is the post-order of a term. -/
lemma exists_postOrder_eq {v : Float} (h : evaluate ts = .ok (some v)) :
    ∃ e : Term, e.postOrder = ts := by
  have hrun : Token.run (([] : List Term).map value) ts = .ok [v] := evaluate_eq_ok_iff.mp h
  obtain ⟨fs, hvalues, htokens⟩ := exists_row_of_run hrun
  obtain ⟨e, rfl, -⟩ := List.map_eq_singleton_iff.mp hvalues
  refine ⟨e, ?_⟩
  simpa [tokens] using htokens

end Term

/-- A list of at least one token has a value exactly if it is the post-order of a term, and then of
one term only; its value is the value of the term.  Every other list fails. -/
theorem evaluate_iff_postOrder {ts : List Token} (hne : ts ≠ []) :
    ((∃ v, evaluate ts = .ok (some v)) ↔ ∃! e : Term, e.postOrder = ts) ∧
      (∀ e : Term, e.postOrder = ts → evaluate ts = .ok (some e.value)) ∧
      ((¬ ∃ e : Term, e.postOrder = ts) → ∃ cause, evaluate ts = .error cause) := by
  have hvalue : ∀ e : Term, e.postOrder = ts → evaluate ts = .ok (some e.value) := by
    rintro e rfl
    exact e.evaluate_postOrder
  refine ⟨⟨?_, ?_⟩, hvalue, ?_⟩
  · rintro ⟨v, hv⟩
    obtain ⟨e, rfl⟩ := Term.exists_postOrder_eq hv
    exact ⟨e, rfl, fun f hf => Term.postOrder_injective hf⟩
  · rintro ⟨e, he, -⟩
    exact ⟨e.value, hvalue e he⟩
  · intro hnone
    cases hresult : evaluate ts with
    | error cause => exact ⟨cause, rfl⟩
    | ok result =>
      cases result with
      | none => exact absurd (eq_nil_of_evaluate hresult) hne
      | some v => exact absurd (Term.exists_postOrder_eq hresult) hnone

/-- The tokens of `-(1 - 2)` may have any priorities and make up one term; those of `- 1` with a
binary operator make up none, and the operator finds too few operands. -/
theorem evaluate_iff_postOrder_difference :
    (∃! e : Term, e.postOrder = [.number 1 0, .number 2 7, .binary .minus (-3), .unary .minus 5]) ∧
      (¬ ∃ e : Term, e.postOrder = [.number 1 0, .binary .minus 0]) ∧
      ∃ cause, evaluate [.number 1 0, .binary .minus 0] = .error cause := by
  constructor
  · exact (evaluate_iff_postOrder (List.cons_ne_nil _ _)).1.mp ⟨_, rfl⟩
  · have htokens : [Token.number 1 0, .binary .minus 0] ≠ [] := List.cons_ne_nil _ _
    obtain ⟨-, hvalue, hfails⟩ := evaluate_iff_postOrder htokens
    have hnone : ¬ ∃ e : Term, e.postOrder = [.number 1 0, .binary .minus 0] := by
      rintro ⟨e, he⟩
      cases hvalue e he
    exact ⟨hnone, hfails hnone⟩

end Reckoner
