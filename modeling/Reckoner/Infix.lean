import Reckoner.Token

/-!
# Ordered tokens as text

`Token.label` shows tokens one by one, with their priorities.  `toInfix` writes an ordered list as
an expression in which every binary operation stands in parentheses.
-/

namespace Reckoner

/-- A token and its priority, as in `2 [0]`. -/
def Token.label (t : Token) : Text :=
  let value : Text :=
    match t with
    | .number v _ => Double.plain v
    | .unary op _ | .binary op _ => [op.toChar]
    | .empty .. => ['(', ')']
  value ++ (" [" ++ toString t.priority ++ "]").toList

/-- Why a list of tokens has no infix text. -/
inductive NoText
  /-- An operator found fewer operands than it takes. -/
  | tooFewOperands
  /-- A token that is no operator stood where only an operator can stand. -/
  | notOperator
deriving DecidableEq, Repr

/-- The message of a failed rendering. -/
def NoText.message : NoText → String
  | tooFewOperands => "pop from empty list"
  | notOperator => "'int' object has no attribute 'value'"

namespace Infix

/-- A number as an operand: a negative one stands in parentheses. -/
def operand (v : Float) : Text :=
  match Double.plain v with
  | '-' :: digits => '(' :: '-' :: (digits ++ [')'])
  | digits => digits

/-- A sign in front of an operand: every symbol but the minus is written as a plus. -/
def signed (op : Operator) (x : Text) : Text := (if op = .minus then '-' else '+') :: x

/-- A binary operation in parentheses. -/
def operation (op : Operator) (x y : Text) : Text :=
  '(' :: (x ++ ' ' :: op.toChar :: ' ' :: (y ++ [')']))

/-- The texts of the operands after a token. -/
def act (stack : List Text) : Token → Except NoText (List Text)
  | .number v _ => .ok (operand v :: stack)
  | .unary op _ =>
    match stack with
    | x :: rest => .ok (signed op x :: rest)
    | [] => .error .tooFewOperands
  | .binary op _ =>
    match stack with
    | y :: x :: rest => .ok (operation op x y :: rest)
    | _ => .error .tooFewOperands
  | .empty tag p =>
    if (Token.empty tag p).isEmptyGroup then .ok (['(', ')'] :: stack)
    else
      match stack with
      | _ :: _ :: _ => .error .notOperator
      | _ => .error .tooFewOperands

/-- The texts of the operands after a list of tokens. -/
def run (stack : List Text) : List Token → Except NoText (List Text)
  | [] => .ok stack
  | t :: ts => do run (← act stack t) ts

end Infix

/-- An ordered list of tokens as an expression, the operands that no operator takes side by side. -/
def toInfix (ts : List Token) : Except NoText Text := do
  let stack ← Infix.run [] ts
  return List.intercalate [' '] stack.reverse

end Reckoner
