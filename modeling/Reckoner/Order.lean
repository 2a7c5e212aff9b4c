import Reckoner.Token

/-!
# From infix to evaluation order

Operands keep their order, and every operator moves behind its operands.  A binary operator first
releases the waiting operators that bind at least as tightly; a unary operator has no left operand
and releases none.
-/

namespace Reckoner

namespace Token

/-- The tokens of an infix list in evaluation order, while the operators `waiting`, the latest
first, still look for their right operands. -/
def arrange : List Token → List Token → List Token
  | waiting, [] => waiting
  | waiting, t :: ts =>
    match t.arity with
    | 0 => t :: arrange waiting ts
    | 1 => arrange (t :: waiting) ts
    | _ =>
      waiting.takeWhile (t.priority ≤ ·.priority) ++
        arrange (t :: waiting.dropWhile (t.priority ≤ ·.priority)) ts

end Token

/-- The tokens of an infix list in evaluation order, if operands and operators balance. -/
def order (ts : List Token) : Option (List Token) :=
  if ts.isEmpty then some []
  else
    let ordered := Token.arrange [] ts
    if Token.balanced ordered then some ordered else none

end Reckoner
