import Reckoner.Journal
import Reckoner.Token

/-!
# Evaluation of ordered tokens

A list of tokens in which every operator follows its operands is evaluated with a stack of values.
Each way in which a list can fail to be such an order is a cause of its own.
-/

namespace Reckoner

/-- Why a list of tokens has no value. -/
inductive NoValue
  /-- An operator found fewer operands than it takes. -/
  | tooFewOperands (op : Operator)
  /-- A parenthesis stood where a binary operator was looked for. -/
  | noBinary (op : Operator)
  /-- A symbol that is no sign stood where a unary operator was looked for. -/
  | noUnary (op : Operator)
  /-- An empty group has no value. -/
  | emptyGroup (token : Token)
  /-- More than one value was left. -/
  | leftOver (count : Nat)

namespace NoValue

/-- The message of a failed evaluation. -/
def message : NoValue → String
  | tooFewOperands _ | leftOver _ => "Invalid Expression (parity)"
  | noBinary _ | noUnary _ | emptyGroup _ => "Invalid expression"

/-- What the journal keeps of a failed evaluation. -/
def record : NoValue → Record
  | tooFewOperands op => ⟨.error, speaker, "Insufficient operands for Operator." ++ op.name⟩
  | noBinary op => ⟨.error, speaker, "Unknown binary operator: Operator." ++ op.name⟩
  | noUnary op => ⟨.error, speaker, "Unknown unary operator: Operator." ++ op.name⟩
  | emptyGroup t => ⟨.debug, speaker, "Cannot evaluate token: " ++ t.describe⟩
  | leftOver n =>
    ⟨.error, speaker, "Stack has " ++ toString n ++ " elements after evaluation, expected 1"⟩
where
  speaker := "core.rpn_evaluator"

end NoValue

namespace Token

/-- The stack after a token: a value is pushed, an operator takes its operands, the right one from
the top, and leaves its result. -/
def act (stack : List Float) : Token → Except NoValue (List Float)
  | .number v _ => .ok (v :: stack)
  | .binary op _ =>
    match stack with
    | y :: x :: rest =>
      match op.binary? with
      | some f => .ok (f x y :: rest)
      | none => .error (.noBinary op)
    | _ => .error (.tooFewOperands op)
  | .unary op _ =>
    match stack with
    | x :: rest =>
      match op.unary? with
      | some f => .ok (f x :: rest)
      | none => .error (.noUnary op)
    | [] => .error (.tooFewOperands op)
  | .empty tag p => .error (.emptyGroup (.empty tag p))

/-- The stack after a list of tokens. -/
def run (stack : List Float) : List Token → Except NoValue (List Float)
  | [] => .ok stack
  | t :: ts => do run (← t.act stack) ts

end Token

/-- The value of an ordered list of tokens; the empty list has none, without being an error. -/
def evaluate : List Token → Except NoValue (Option Float)
  | [] => .ok none
  | ts => do
    match ← Token.run [] ts with
    | [v] => .ok (some v)
    | stack => .error (.leftOver stack.length)

end Reckoner
