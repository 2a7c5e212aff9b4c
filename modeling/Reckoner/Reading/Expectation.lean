import Reckoner.Text.Basic

/-!
# What may come next

While a text is read, the reader knows what may stand at the next place.  Each category of lexeme
asks for one of a set of slots to be open and, once read, decides which slots are open after it.
Read from the right, the table speaks of what may stand further left.
-/

namespace Reckoner

/-- The lexemes that a reader tells apart. -/
inductive Category
  | number
  | sign
  | operator
  | opening
  | closing
deriving DecidableEq, Repr

namespace Category

/-- The name of a category. -/
def name : Category → String
  | number => "number"
  | sign => "sign"
  | operator => "operator"
  | opening => "lparen"
  | closing => "rparen"

/-- All categories. -/
def all : List Category := [number, sign, operator, opening, closing]

/-- The category with a name. -/
def ofName? (t : Text) : Option Category := all.find? (·.name.toList == t)

end Category

/-- The slots that are open at a place of a text: a number, a binary operator, an opening or closing
parenthesis, a sign, or the closing of an empty group. -/
structure Expectation where
  number : Bool
  operator : Bool
  opening : Bool
  closing : Bool
  sign : Bool
  emptyGroup : Bool
deriving DecidableEq, Repr

namespace Expectation

/-- The slots in the order of their numbers. -/
def slots (e : Expectation) : List Bool :=
  [e.number, e.operator, e.opening, e.closing, e.sign, e.emptyGroup]

/-- The code of an expectation: one binary digit for each slot. -/
def code (e : Expectation) : Nat := e.slots.foldr (fun b n => b.toNat + 2 * n) 0

/-- The expectation with a code; digits beyond the sixth do not matter. -/
def ofCode (n : Int) : Expectation :=
  let slot (i : Nat) : Bool := (n >>> i) % 2 == 1
  ⟨slot 0, slot 1, slot 2, slot 3, slot 4, slot 5⟩

/-- The code of an expectation determines it. -/
theorem ofCode_code (e : Expectation) : ofCode e.code = e := by
  obtain ⟨a, b, c, d, f, g⟩ := e
  cases a <;> cases b <;> cases c <;> cases d <;> cases f <;> cases g <;> rfl

/-- Is one of the wanted slots open? -/
def meets (e wanted : Expectation) : Bool :=
  (e.number && wanted.number) || (e.operator && wanted.operator) ||
    (e.opening && wanted.opening) || (e.closing && wanted.closing) ||
    (e.sign && wanted.sign) || (e.emptyGroup && wanted.emptyGroup)

/-- No slot is open. -/
def nothing : Expectation := ⟨false, false, false, false, false, false⟩

/-- An operand may begin: a number, an opening parenthesis or a sign. -/
def operand : Expectation := { nothing with number := true, opening := true, sign := true }

/-- Read from the right, an operand may end: a number or a closing parenthesis. -/
def operandEnd : Expectation := { nothing with number := true, closing := true }

/-- Read from the right, the beginning of an operand has been passed: an operator, a sign or an
opening parenthesis may stand before it. -/
def beforeOperand : Expectation := { nothing with operator := true, opening := true, sign := true }

/-- What is open at the place where reading begins. -/
def start : Direction → Expectation
  | .forward => operand
  | .backward => operandEnd

/-- The slots that a category asks for. -/
def required : Direction → Category → Expectation
  | _, .number => { nothing with number := true }
  | _, .sign => { nothing with sign := true }
  | _, .operator => { nothing with operator := true }
  | .forward, .opening => { nothing with opening := true }
  | .forward, .closing => { nothing with closing := true, emptyGroup := true }
  | .backward, .opening => { nothing with opening := true, emptyGroup := true }
  | .backward, .closing => { nothing with closing := true }

/-- The slots that are open once a category has been read. -/
def following : Direction → Category → Expectation
  | .forward, .number => { nothing with operator := true, closing := true }
  | .forward, .sign => operand
  | .forward, .operator => operand
  | .forward, .opening => { operand with emptyGroup := true }
  | .forward, .closing => { nothing with operator := true, closing := true, opening := true }
  | .backward, .number => beforeOperand
  | .backward, .sign => beforeOperand
  | .backward, .operator => operandEnd
  | .backward, .opening => beforeOperand
  | .backward, .closing => { operandEnd with emptyGroup := true }

/-- The expectation after a category, if the category may stand here. -/
def after? (e : Expectation) (dir : Direction) (cat : Category) : Option Expectation :=
  if e.meets (required dir cat) then some (following dir cat) else none

end Expectation

end Reckoner
