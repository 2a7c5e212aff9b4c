import Reckoner.Operator
import Reckoner.Number.Layout
import Reckoner.Text.Quoted

/-!
# Tokens

An expression is ordered and evaluated as a list of tokens: numbers, unary and binary operators, and
empty groups, the marker that a pair of parentheses around nothing leaves.  Each token carries a
priority; the priority of an operator grows with the depth of the parentheses around it.
-/

namespace Reckoner

/-- A number, an operator or an empty group, with its priority. -/
inductive Token
  | number (value : Float) (priority : Int)
  | unary (op : Operator) (priority : Int)
  | binary (op : Operator) (priority : Int)
  | empty (tag : Int) (priority : Int)

namespace Token

/-- The marker that parentheses around nothing leave. -/
def emptyGroup : Token := .empty 0 0

/-- Is the token the marker of an empty group?  Tag and priority count. -/
def isEmptyGroup : Token → Bool
  | .empty tag priority => tag == 0 && priority == 0
  | _ => false

/-- The priority of a token. -/
def priority : Token → Int
  | .number _ p | .unary _ p | .binary _ p | .empty _ p => p

/-- The number of operands that a token takes. -/
def arity : Token → Nat
  | .number .. | .empty .. => 0
  | .unary .. => 1
  | .binary .. => 2

/-- Does the token take operands? -/
def isOperator (t : Token) : Bool := t.arity != 0

/-- What a unary operator adds to the priority of its place: the minus sign binds as tightly as a
division. -/
def unaryOffset : Operator → Int
  | .minus => 2
  | _ => 0

/-- What a binary operator adds to the priority of its place: the divisions bind more tightly than
the multiplication, and this more tightly than sum and difference. -/
def binaryOffset : Operator → Int
  | .multiply => 1
  | .divide | .intDivide => 2
  | _ => 0

/-- The unary operator at a place of priority `base`. -/
def unaryAt (base : Int) (op : Operator) : Token := .unary op (base + unaryOffset op)

/-- The binary operator at a place of priority `base`. -/
def binaryAt (base : Int) (op : Operator) : Token := .binary op (base + binaryOffset op)

/-- The number of operands that a list of tokens uses up. -/
def consumed : List Token → Nat
  | [] => 0
  | t :: ts => t.arity + consumed ts

/-- As many operands as the operators of a list use up, and one more for the result: the count that
every complete list of tokens passes. -/
def balanced (ts : List Token) : Bool := consumed ts + 1 == ts.length

/-- The name of the kind of a token. -/
def kind : Token → String
  | .number .. => "num"
  | .unary .. => "op1"
  | .binary .. => "op2"
  | .empty .. => "null"

/-- A token as a message shows it: kind, value and priority. -/
def describe (t : Token) : String :=
  let value : String :=
    match t with
    | .number v _ => String.ofList (Double.display v)
    | .unary op _ | .binary op _ => Text.quotedString [op.toChar]
    | .empty tag _ => toString tag
  "Token(" ++ t.kind ++ ", " ++ value ++ ", " ++ toString t.priority ++ ")"

end Token

end Reckoner
