import Mathlib.Data.List.Chain
import Reckoner.Proofs.Numerals
import Reckoner.Token

/-!
# The grammar of expressions

An expression is written with numerals, operators, signs and parentheses:

    sum      := product (('+' | '-') product)*
    product  := quotient ('*' quotient)*
    quotient := unary (('/' | '\') unary)*
    unary    := ('+' | '-')* atom
    atom     := numeral | '(' sum ')' | '(' ')'

`Derives` says which rows of lexemes have which trees by this grammar: operators of one level group
to the left, so a repetition is a left recursion.  `Spells` says which texts write a row of lexemes:
white characters may stand before, between and behind them.  A text is a sentence if it spells a
row that derives a sum.

`Derivable.extend` is the way in which a sum grows to the right: any binary operator and a further
unary expression make it a sum again.  To the left it grows by a sign (`Derivable.sign`), or by any
binary operator and a further sum (`Derivable.joinSums`).
-/

namespace Reckoner

/-- Signs are arithmetic symbols. -/
lemma Operator.isArithmetic_of_isSign {op : Operator} (h : op.isSign) : op.isArithmetic := by
  cases op <;> first | rfl | exact absurd h (by decide)

namespace Grammar

/-- The levels of the grammar, from the loosest to the tightest. -/
inductive Level
  | sum
  | product
  | quotient
  | unary
  | atom
deriving DecidableEq, Repr

namespace Level

/-- The level of the parts of a level. -/
def next : Level → Level
  | sum => product
  | product => quotient
  | quotient => unary
  | unary => atom
  | atom => atom

/-- The level at which a binary operator joins; parentheses join nothing. -/
def ofOperator : Operator → Level
  | .plus | .minus => sum
  | .multiply => product
  | .divide | .intDivide => quotient
  | .leftParenthesis | .rightParenthesis => atom

/-- The levels in increasing order of how tightly their operators bind. -/
def tightness : Level → Nat
  | sum => 0
  | product => 1
  | quotient => 2
  | unary => 3
  | atom => 4

/-- What an operator of a level adds to the priority of its place. -/
def offset : Level → Int
  | sum => 0
  | product => 1
  | quotient | unary | atom => 2

/-- Binary operators bind less tightly than signs. -/
lemma tightness_ofOperator_lt {op : Operator} (hop : op.isArithmetic) :
    (ofOperator op).tightness < unary.tightness := by
  cases op <;> simp_all [ofOperator, tightness, Operator.isArithmetic]

/-- The parts of what is looser than a unary expression may be unary expressions. -/
lemma tightness_next_le {l : Level} (h : l.tightness < unary.tightness) :
    l.next.tightness ≤ unary.tightness := by
  cases l <;> simp_all [next, tightness]

/-- Between a level and a tighter one lies the level of its parts. -/
lemma tightness_next_of_ne {l m : Level} (h : l.tightness ≤ m.tightness) (hne : m ≠ l) :
    l.next.tightness ≤ m.tightness := by
  cases l <;> cases m <;> simp_all [next, tightness]

end Level

/-- The trees of expressions. -/
inductive Tree
  | numeral (text : Text)
  | empty
  | group (inner : Tree)
  | signed (op : Operator) (operand : Tree)
  | binary (op : Operator) (left right : Tree)
deriving DecidableEq, Repr

namespace Tree

/-- The numerals of a tree, from left to right. -/
def numerals : Tree → List Text
  | numeral t => [t]
  | empty => []
  | group e | signed _ e => e.numerals
  | binary _ e f => e.numerals ++ f.numerals

/-- The tokens of a tree with every operator behind its operands, inside `depth` pairs of
parentheses.  A numeral is a number token, a plus sign leaves no token, and an operator has the
priority of its depth and the offset of its level. -/
def postOrder (step : Int) : Nat → Tree → List Token
  | _, numeral t => [.number (Numeral.value t) 0]
  | _, empty => [.emptyGroup]
  | depth, group e => e.postOrder step (depth + 1)
  | depth, signed op e =>
    e.postOrder step depth ++
      if op = .minus then [.unary op (step * depth + Level.unary.offset)] else []
  | depth, binary op e f =>
    e.postOrder step depth ++ f.postOrder step depth ++
      [.binary op (step * depth + (Level.ofOperator op).offset)]

end Tree

/-- The rows of lexemes of a level, with their trees. -/
inductive Derives : Level → List Lexeme → Tree → Prop
  | numeral {t : Text} (ht : Numeral.IsNumeral t) : Derives .atom [.numeral t] (.numeral t)
  | empty : Derives .atom [.symbol .leftParenthesis, .symbol .rightParenthesis] .empty
  | group {ls : List Lexeme} {e : Tree} (inner : Derives .sum ls e) :
      Derives .atom (.symbol .leftParenthesis :: (ls ++ [.symbol .rightParenthesis])) (.group e)
  | signed {op : Operator} {ls : List Lexeme} {e : Tree} (hop : op.isSign)
      (operand : Derives .unary ls e) : Derives .unary (.symbol op :: ls) (.signed op e)
  | binary {l : Level} {op : Operator} {ls ms : List Lexeme} {e f : Tree} (hop : op.isArithmetic)
      (hl : Level.ofOperator op = l) (left : Derives l ls e) (right : Derives l.next ms f) :
      Derives l (ls ++ .symbol op :: ms) (.binary op e f)
  | promote {l : Level} {ls : List Lexeme} {e : Tree} (h : Derives l.next ls e) : Derives l ls e

/-- The rows of lexemes of a level. -/
def Derivable (l : Level) (ls : List Lexeme) : Prop := ∃ e, Derives l ls e

/-- The texts that write a row of lexemes, with white characters anywhere around them. -/
inductive Spells : List Lexeme → Text → Prop
  | nil : Spells [] []
  | white {c : Char} {ls : List Lexeme} {t : Text} (hc : Text.isWhite c) (h : Spells ls t) :
      Spells ls (c :: t)
  | lexeme {ls : List Lexeme} {t : Text} (l : Lexeme) (h : Spells ls t) :
      Spells (l :: ls) (l.text ++ t)

/-- The texts of the grammar. -/
def IsSentence (t : Text) : Prop := ∃ ls, Derivable .sum ls ∧ Spells ls t

/-! ## The lexemes of derivable rows -/

/-- Numerals and symbols, the lexemes of the grammar. -/
def IsTerminal : Lexeme → Prop
  | .numeral t => Numeral.IsNumeral t
  | .symbol _ => True
  | .white _ | .foreign _ => False

/-- Two lexemes that may be neighbours: not both are numerals. -/
def Apart (l m : Lexeme) : Prop := ¬ (l.isNumeral ∧ m.isNumeral)

/-- A symbol may have any neighbour to its left. -/
lemma apart_symbol (l : Lexeme) (op : Operator) : Apart l (.symbol op) := by
  simp [Apart, Lexeme.isNumeral]

/-- A symbol may have any neighbour to its right. -/
lemma symbol_apart (op : Operator) (l : Lexeme) : Apart (.symbol op) l := by
  simp [Apart, Lexeme.isNumeral]

/-- A symbol may stand in front of any row without neighbouring numerals. -/
lemma isChain_symbol_cons {ls : List Lexeme} (op : Operator) :
    (.symbol op :: ls).IsChain Apart ↔ ls.IsChain Apart := by
  rw [List.isChain_cons]
  exact and_iff_right fun m _ => symbol_apart op m

/-- Rows without neighbouring numerals may be joined by a symbol. -/
lemma isChain_symbol_append {ls ms : List Lexeme} (op : Operator) :
    (ls ++ .symbol op :: ms).IsChain Apart ↔ ls.IsChain Apart ∧ ms.IsChain Apart := by
  rw [List.isChain_append, isChain_symbol_cons]
  constructor
  · rintro ⟨hls, hms, -⟩
    exact ⟨hls, hms⟩
  · rintro ⟨hls, hms⟩
    refine ⟨hls, hms, ?_⟩
    rintro l - m hm
    obtain rfl := Option.some.inj hm
    exact apart_symbol l op

namespace Derives

variable {l : Level} {ls : List Lexeme} {e : Tree}

/-- A derivable row is not empty. -/
lemma ne_nil (h : Derives l ls e) : ls ≠ [] := by
  induction h with
  | promote _ ih => exact ih
  | numeral | empty | group | signed | binary => simp

/-- Only lexemes of the grammar stand in a derivable row. -/
lemma isTerminal (h : Derives l ls e) : ∀ m ∈ ls, IsTerminal m := by
  induction h with
  | numeral ht => simpa [IsTerminal] using ht
  | empty => simp [IsTerminal]
  | group _ ih => simpa [IsTerminal, or_imp, forall_and] using ih
  | signed _ _ ih => simpa [IsTerminal] using ih
  | binary _ _ _ _ ihl ihr => simpa [IsTerminal, or_imp, forall_and] using ⟨ihl, ihr⟩
  | promote _ ih => exact ih

/-- The neighbours in a derivable row are related if everything may follow an opening parenthesis,
precede a closing one, and stand on either side of an operator. -/
lemma isChain_of {R : Lexeme → Lexeme → Prop} (h : Derives l ls e)
    (hopening : ∀ m, R (.symbol .leftParenthesis) m)
    (hclosing : ∀ m, R m (.symbol .rightParenthesis))
    (hoperator : ∀ op : Operator, op.isArithmetic → ∀ m, R m (.symbol op) ∧ R (.symbol op) m) :
    ls.IsChain R := by
  induction h with
  | numeral => simp
  | empty => simp [hopening]
  | group _ ih =>
    refine List.isChain_cons.mpr ⟨fun m _ => hopening m, List.isChain_append.mpr ⟨ih, by simp, ?_⟩⟩
    rintro m - _ hlast
    obtain rfl := Option.some.inj hlast
    exact hclosing m
  | signed hop _ ih =>
    exact List.isChain_cons.mpr
      ⟨fun m _ => (hoperator _ (Operator.isArithmetic_of_isSign hop) m).2, ih⟩
  | binary hop _ _ _ ihl ihr =>
    refine List.isChain_append.mpr
      ⟨ihl, List.isChain_cons.mpr ⟨fun m _ => (hoperator _ hop m).2, ihr⟩, ?_⟩
    rintro m - _ hhead
    obtain rfl := Option.some.inj hhead
    exact (hoperator _ hop m).1
  | promote _ ih => exact ih

/-- No two numerals stand side by side in a derivable row. -/
lemma isChain (h : Derives l ls e) : ls.IsChain Apart :=
  h.isChain_of (symbol_apart _) (fun m => apart_symbol m _)
    fun op _ m => ⟨apart_symbol m op, symbol_apart op m⟩

/-- The numerals of a tree are numerals. -/
lemma isNumeral_of_mem_numerals (h : Derives l ls e) :
    ∀ t ∈ e.numerals, Numeral.IsNumeral t := by
  induction h with
  | numeral ht => simpa [Tree.numerals] using ht
  | empty => simp [Tree.numerals]
  | group _ ih => exact ih
  | signed _ _ ih => exact ih
  | binary _ _ _ _ ihl ihr => simpa [Tree.numerals, or_imp, forall_and] using ⟨ihl, ihr⟩
  | promote _ ih => exact ih

/-- A unary expression is a product, with the same tree. -/
lemma product_of_unary (h : Derives .unary ls e) : Derives .product ls e := .promote (.promote h)

/-- A unary expression is a sum, with the same tree. -/
lemma sum_of_unary (h : Derives .unary ls e) : Derives .sum ls e := .promote h.product_of_unary

end Derives

/-! ## How sums grow -/

namespace Derivable

variable {ls ms : List Lexeme} {op : Operator}

/-- A row of a level is one of every looser level. -/
lemma promote (l : Level) (h : Derivable l.next ls) : Derivable l ls :=
  h.imp fun _ => Derives.promote

/-- Two rows joined by an operator of their level. -/
lemma join {l : Level} (hop : op.isArithmetic) (hl : Level.ofOperator op = l)
    (left : Derivable l ls) (right : Derivable l.next ms) :
    Derivable l (ls ++ .symbol op :: ms) := by
  obtain ⟨e, left⟩ := left
  obtain ⟨f, right⟩ := right
  exact ⟨_, .binary hop hl left right⟩

/-- A unary expression is one of every looser level. -/
lemma of_unary (l : Level) (h : Derivable .unary ms) (hl : l.tightness ≤ Level.unary.tightness) :
    Derivable l ms := by
  have hquotient : Derivable .quotient ms := promote .quotient h
  have hproduct : Derivable .product ms := promote .product hquotient
  cases l with
  | sum => exact promote .sum hproduct
  | product => exact hproduct
  | quotient => exact hquotient
  | unary => exact h
  | atom => exact absurd hl (by decide)

/-- An expression grows to the right by an operator that binds at least as tightly as its level:
the operator joins it, or the last of its parts. -/
lemma extend_of_le {l : Level} {e : Tree} (hop : op.isArithmetic) (right : Derivable .unary ms)
    (left : Derives l ls e) (hl : l.tightness ≤ (Level.ofOperator op).tightness) :
    Derivable l (ls ++ .symbol op :: ms) := by
  have hloose : (Level.ofOperator op).tightness < Level.unary.tightness :=
    Level.tightness_ofOperator_lt hop
  have hjoin {l : Level} {ls : List Lexeme} (heq : Level.ofOperator op = l) (h : Derivable l ls) :
      Derivable l (ls ++ .symbol op :: ms) := by
    subst heq
    exact h.join hop rfl (right.of_unary _ (Level.tightness_next_le hloose))
  induction left with
  | numeral => exact absurd (hl.trans_lt hloose) (by decide)
  | empty => exact absurd (hl.trans_lt hloose) (by decide)
  | group => exact absurd (hl.trans_lt hloose) (by decide)
  | signed => exact absurd (hl.trans_lt hloose) (by decide)
  | @binary l op' ls ms' e f hop' hl' hleft hright _ ih =>
    by_cases heq : Level.ofOperator op = l
    · exact hjoin heq ⟨_, .binary hop' hl' hleft hright⟩
    · have h := join hop' hl' ⟨e, hleft⟩ (ih (Level.tightness_next_of_ne hl heq))
      rwa [List.append_assoc, List.cons_append]
  | @promote l ls e h ih =>
    by_cases heq : Level.ofOperator op = l
    · exact hjoin heq ⟨e, .promote h⟩
    · exact promote l (ih (Level.tightness_next_of_ne hl heq))

/-- A sum grows by every binary operator, each in the last part of its level. -/
theorem extend (hop : op.isArithmetic) (left : Derivable .sum ls) (right : Derivable .unary ms) :
    Derivable .sum (ls ++ .symbol op :: ms) := by
  obtain ⟨e, left⟩ := left
  exact extend_of_le hop right left (Nat.zero_le _)

/-- A sum grows by the unary expressions of a further expression, one after the other. -/
lemma extend_of_derives {l : Level} {f : Tree} (hop : op.isArithmetic) (left : Derivable .sum ls)
    (right : Derives l ms f) : Derivable .sum (ls ++ .symbol op :: ms) := by
  induction right generalizing op ls with
  | numeral ht => exact extend hop left ⟨_, .promote (.numeral ht)⟩
  | empty => exact extend hop left ⟨_, .promote .empty⟩
  | group inner _ => exact extend hop left ⟨_, .promote (.group inner)⟩
  | signed hop' operand _ => exact extend hop left ⟨_, .signed hop' operand⟩
  | binary hop' _ _ _ ihe ihf =>
    have hboth := ihf hop' (ihe hop left)
    rwa [List.append_assoc, List.cons_append] at hboth
  | promote _ ih => exact ih hop left

/-- Two sums joined by any binary operator are a sum. -/
theorem joinSums (hop : op.isArithmetic) (left : Derivable .sum ls) (right : Derivable .sum ms) :
    Derivable .sum (ls ++ .symbol op :: ms) := by
  obtain ⟨f, right⟩ := right
  exact extend_of_derives hop left right

/-- A sign may be put in front of what is not tighter than a unary expression: it is the sign of
the first operand. -/
lemma sign_of_le {l : Level} {e : Tree} (hop : op.isSign) (h : Derives l ls e)
    (hl : l.tightness ≤ Level.unary.tightness) : Derivable l (.symbol op :: ls) := by
  induction h with
  | numeral | empty | group => exact absurd hl (by decide)
  | signed hop' operand _ => exact ⟨_, .signed hop (.signed hop' operand)⟩
  | binary hop' hl' _ right ihe _ =>
    obtain ⟨e', left'⟩ := ihe hl
    exact ⟨_, .binary hop' hl' left' right⟩
  | @promote l _ _ h ih =>
    cases l with
    | sum => exact promote .sum (ih (by decide))
    | product => exact promote .product (ih (by decide))
    | quotient => exact promote .quotient (ih (by decide))
    | unary => exact ⟨_, .signed hop (.promote h)⟩
    | atom => exact absurd hl (by decide)

/-- A sum with a sign in front of it is a sum. -/
theorem sign (hop : op.isSign) (h : Derivable .sum ls) : Derivable .sum (.symbol op :: ls) := by
  obtain ⟨e, h⟩ := h
  exact sign_of_le hop h (by decide)

/-- A row that begins with a sign is still derivable without it. -/
lemma of_sign_cons {l : Level} (hop : op.isSign) (h : Derivable l (.symbol op :: ls)) :
    Derivable l ls := by
  obtain ⟨e, h⟩ := h
  generalize hrow : Lexeme.symbol op :: ls = row at h
  induction h generalizing ls with
  | numeral => cases hrow
  | empty | group =>
    obtain ⟨hhead, -⟩ := List.cons.inj hrow
    obtain rfl := Lexeme.symbol.inj hhead
    exact absurd hop (by decide)
  | signed _ operand _ =>
    obtain ⟨-, rfl⟩ := List.cons.inj hrow
    exact ⟨_, operand⟩
  | @binary l op' ms ns e f hop' hl' left right ihe _ =>
    cases ms with
    | nil => exact absurd rfl left.ne_nil
    | cons m ms =>
      obtain ⟨rfl, rfl⟩ := List.cons.inj hrow
      exact (ihe rfl).join hop' hl' ⟨_, right⟩
  | @promote l _ _ _ ih => exact promote l (ih hrow)

end Derivable

end Grammar

end Reckoner
