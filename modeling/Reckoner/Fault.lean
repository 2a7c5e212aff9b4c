import Reckoner.Evaluation
import Reckoner.Number.Literal
import Reckoner.Reading.Expectation

/-!
# Faults

The causes for which a reading or an evaluation ends without an answer, and their messages.
-/

namespace Reckoner

/-- Why a text is no expression. -/
inductive Reason
  | unexpectedNumber
  | unexpectedOperator
  | unexpectedOpening
  | unexpectedClosing
  | unmatchedParentheses
  | parityMismatch
  | unknownCharacter
deriving DecidableEq, Repr

/-- The wording of a reason. -/
def Reason.message : Reason → String
  | unexpectedNumber => "Unexpected number"
  | unexpectedOperator => "Unexpected operator"
  | unexpectedOpening => "Unexpected \"(\""
  | unexpectedClosing => "Unexpected \")\""
  | unmatchedParentheses => "Unmatched parentheses"
  | parityMismatch => "Parity mismatch"
  | unknownCharacter => "Unknown character"

/-- Why there is no answer. -/
inductive Fault
  /-- The text is no expression, which shows at a column. -/
  | malformed (reason : Reason) (column : Int)
  /-- The tokens have no value. -/
  | valueless (cause : NoValue)
  /-- A position outside the text was read. -/
  | outOfRange
  /-- A text does not denote a number. -/
  | notNumber (text : Text)
  /-- A text does not write an operator symbol. -/
  | notOperator (text : Text)
  /-- A text does not name a category of lexemes. -/
  | notCategory (text : Text)
  /-- An entry was to be dropped from a cache without entries. -/
  | emptyCache

namespace Fault

/-- The message of a fault. -/
def message : Fault → String
  | malformed reason column =>
    reason.message ++ " at column " ++ toString column ++ " of expression"
  | valueless cause => cause.message
  | outOfRange => "string index out of range"
  | notNumber t => "could not convert string to float: " ++ Text.quotedString t
  | notOperator t => Text.quotedString t ++ " is not a valid Operator"
  | notCategory t => Text.quotedString t ++ " is not a valid TokenClass"
  | emptyCache => "cache is empty"

/-- Is it a fault of the expression, which a batch reports and survives? -/
def isOfExpression : Fault → Bool
  | malformed .. | valueless _ => true
  | _ => false

end Fault

/-- The operator symbol that a text writes. -/
def Operator.ofText (t : Text) : Except Fault Operator :=
  match Operator.ofText? t with
  | some op => .ok op
  | none => .error (.notOperator t)

/-- The category that a text names. -/
def Category.ofName (t : Text) : Except Fault Category :=
  match Category.ofName? t with
  | some cat => .ok cat
  | none => .error (.notCategory t)

/-- The number token that a text denotes. -/
def Token.ofNumeral (t : Text) : Except Fault Token :=
  match Literal.double? t with
  | some v => .ok (.number v 0)
  | none => .error (.notNumber t)

end Reckoner
