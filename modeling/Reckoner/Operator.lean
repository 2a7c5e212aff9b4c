import Reckoner.Text.Basic

/-!
# Operator symbols

The seven symbols of arithmetic text, their characters and the arithmetic that five of them stand
for.  `ofChar?_toChar` and `toChar_of_ofChar?` say that a symbol and its character determine each
other.
-/

namespace Reckoner

/-- The five arithmetic operators and the two parentheses. -/
inductive Operator
  | plus
  | minus
  | multiply
  | divide
  | intDivide
  | leftParenthesis
  | rightParenthesis
deriving DecidableEq, Repr

namespace Operator

/-- The character that writes a symbol. -/
def toChar : Operator → Char
  | plus => '+'
  | minus => '-'
  | multiply => '*'
  | divide => '/'
  | intDivide => '\\'
  | leftParenthesis => '('
  | rightParenthesis => ')'

/-- The symbol that a character writes. -/
def ofChar? : Char → Option Operator
  | '+' => some plus
  | '-' => some minus
  | '*' => some multiply
  | '/' => some divide
  | '\\' => some intDivide
  | '(' => some leftParenthesis
  | ')' => some rightParenthesis
  | _ => none

/-- The symbol that a text writes: a text of one character that writes a symbol. -/
def ofText? : Text → Option Operator
  | [c] => ofChar? c
  | _ => none

/-- The name of a symbol in the journal. -/
def name : Operator → String
  | plus => "PLUS"
  | minus => "MINUS"
  | multiply => "MULTIPLY"
  | divide => "DIVIDE"
  | intDivide => "INT_DIVIDE"
  | leftParenthesis => "LEFT_PARENTHESIS"
  | rightParenthesis => "RIGHT_PARENTHESIS"

/-- The symbols that stand for arithmetic: all but the parentheses. -/
def isArithmetic : Operator → Bool
  | leftParenthesis | rightParenthesis => false
  | _ => true

/-- The symbols that may be the sign of an operand. -/
def isSign : Operator → Bool
  | plus | minus => true
  | _ => false

/-- A symbol is read from the character that writes it. -/
@[simp] theorem ofChar?_toChar (op : Operator) : ofChar? op.toChar = some op := by
  cases op <;> rfl

/-- A character that is read as a symbol writes it. -/
theorem toChar_of_ofChar? {c : Char} {op : Operator} (h : ofChar? c = some op) :
    op.toChar = c := by
  unfold ofChar? at h
  split at h <;> first | (cases h; rfl) | simp at h

/-- The quotient rounded down to a whole number. -/
def floorDiv (x y : Float) : Float := (x / y).floor

/-- What a symbol does to one operand, if it is a sign. -/
def unary? : Operator → Option (Float → Float)
  | plus => some id
  | minus => some Float.neg
  | _ => none

/-- What a symbol does to a left and a right operand, if it is arithmetic.  A division by zero has
an infinite value or none, as the arithmetic of doubles has it. -/
def binary? : Operator → Option (Float → Float → Float)
  | plus => some (· + ·)
  | minus => some (· - ·)
  | multiply => some (· * ·)
  | divide => some (· / ·)
  | intDivide => some floorDiv
  | _ => none

end Operator

/-- Does the character write an arithmetic operator? -/
def Text.isArithmetic (c : Char) : Bool :=
  (Operator.ofChar? c).any Operator.isArithmetic

/-- Does the character write a sign? -/
def Text.isSign (c : Char) : Bool :=
  (Operator.ofChar? c).any Operator.isSign

/-- Does the character write the sign that negates? -/
def Text.isNegativeSign (c : Char) : Bool :=
  Operator.ofChar? c == some .minus

end Reckoner
