import Reckoner.Fault
import Reckoner.Lexeme.Basic
import Reckoner.Order

/-!
# Reading lexemes one by one

A reader holds what may come next, the depth of the open parentheses and the tokens so far, the
latest first.  Parentheses leave no tokens: an operator inside `d` pairs of them has the priority
`d * step` and the offset of its symbol.  Forward, every lexeme must fit; backward, the first one
that does not fit ends the expression, and a sign is told from a binary operator by what stands to
its left.
-/

namespace Reckoner

/-- What a reader holds. -/
structure Progress where
  expected : Expectation
  depth : Nat
  tokens : List Token

namespace Progress

/-- A reader at its first lexeme. -/
def start (dir : Direction) : Progress := ⟨.start dir, 0, []⟩

/-- The reader after a category that may come next. -/
def accept (p : Progress) (dir : Direction) (cat : Category) : Option Progress :=
  (p.expected.after? dir cat).map fun e => { p with expected := e }

/-- The reader after a category that has to come next. -/
def require (p : Progress) (dir : Direction) (cat : Category) (reason : Reason) (column : Int) :
    Except Fault Progress :=
  match p.accept dir cat with
  | some q => .ok q
  | none => .error (.malformed reason column)

/-- The reader with one more token. -/
def push (p : Progress) (t : Token) : Progress := { p with tokens := t :: p.tokens }

/-- The priority that the open parentheses give to an operator. -/
def base (step : Int) (p : Progress) : Int := step * p.depth

/-- A number, which has to come next. -/
def readNumber (p : Progress) (dir : Direction) (column : Int) (numeral : Text) :
    Except Fault Progress := do
  let q ← p.require dir .number .unexpectedNumber column
  let t ← Token.ofNumeral numeral
  return q.push t

/-- The reader after a sign: a minus leaves a token, a plus leaves none. -/
def pushSign (step : Int) (p : Progress) (op : Operator) : Progress :=
  if op = .minus then p.push (.unaryAt (p.base step) op) else p

/-- The reader after a binary operator. -/
def pushBinary (step : Int) (p : Progress) (op : Operator) : Progress :=
  p.push (.binaryAt (p.base step) op)

/-- The reader after parentheses around nothing, if `here` says that nothing was between them. -/
def pushEmpty (p : Progress) (here : Bool) : Progress :=
  if here then p.push .emptyGroup else p

/-- The next lexeme in reading order from the left, which begins at `column`. -/
def readForward (step : Int) (column : Int) (p : Progress) : Lexeme → Except Fault Progress
  | .white _ => .ok p
  | .foreign _ => .error (.malformed .unknownCharacter column)
  | .numeral t => p.readNumber .forward column t
  | .symbol .leftParenthesis => do
    let q ← p.require .forward .opening .unexpectedOpening column
    return { q with depth := p.depth + 1 }
  | .symbol .rightParenthesis =>
    match p.depth with
    | 0 => .error (.malformed .unmatchedParentheses column)
    | depth + 1 => do
      let q ← p.require .forward .closing .unexpectedClosing column
      return { q with depth := depth }.pushEmpty p.expected.emptyGroup
  | .symbol op =>
    match if op.isSign then p.accept .forward .sign else none with
    | some q => .ok (q.pushSign step op)
    | none => do
      let q ← p.require .forward .operator .unexpectedOperator column
      return q.pushBinary step op

/-- The next lexeme in reading order from the right, which begins at `column`; `left` are the
lexemes further left.  There is no further reader if the lexeme does not belong to the
expression. -/
def readBackward (step : Int) (column : Int) (p : Progress) (left : List Lexeme) :
    Lexeme → Except Fault (Option Progress)
  | .white _ => .ok (some p)
  | .foreign _ => .ok none
  | .numeral t => some <$> p.readNumber .backward column t
  | .symbol .rightParenthesis =>
    .ok ((p.accept .backward .closing).map fun q => { q with depth := p.depth + 1 })
  | .symbol .leftParenthesis =>
    match p.accept .backward .opening with
    | none => .ok none
    | some q =>
      match p.depth with
      | 0 => .error (.malformed .unmatchedParentheses column)
      | depth + 1 => .ok (some ({ q with depth := depth }.pushEmpty p.expected.emptyGroup))
  | .symbol op =>
    match if op.isSign && Lexeme.admitSign left then p.accept .backward .sign else none with
    | some q => .ok (some (q.pushSign step op))
    | none => .ok ((p.accept .backward .operator).map fun q => q.pushBinary step op)

/-- The tokens in evaluation order at the end of an expression; `infixOrder` are the tokens of the
reader in the order of writing. -/
def finish (p : Progress) (infixOrder : List Token) (column : Int) : Except Fault (List Token) :=
  if p.depth ≠ 0 then .error (.malformed .unmatchedParentheses column)
  else
    match order infixOrder with
    | some ts => .ok ts
    | none => .error (.malformed .parityMismatch column)

end Progress

end Reckoner
