import Reckoner.Fault
import Reckoner.Lexeme.Window

/-!
# Cursors in a text

A cursor stands at a position of a text, remembers where the latest lexeme began and reads no
further than `stop`.  Positions are integers and may leave the text on either side.  A character at
or behind `stop`, or before the text, is not seen; a position that is let through and yet lies
outside the text is a fault.  Every operation returns the cursor as it stands afterwards, also after
a fault.
-/

namespace Reckoner

/-- A place in a text, with the beginning of the latest lexeme and the end of what is seen. -/
structure Cursor where
  text : Text
  pos : Int
  start : Int
  stop : Int
deriving DecidableEq, Repr

namespace Cursor

/-- The result of an operation, or its fault, and the cursor afterwards. -/
abbrev Outcome (α : Type) := Except Fault α × Cursor

/-- A cursor in front of a text. -/
def ofText (t : Text) : Cursor := ⟨t, 0, 0, t.length⟩

/-- A cursor over the whole of a text, where a reader in a direction begins. -/
def whole (t : Text) : Direction → Cursor
  | .forward => ofText t
  | .backward => ⟨t, t.length, t.length, t.length⟩

/-- A cursor at a position of a text; without a start the latest lexeme begins there, and without a
stop the whole text is visible. -/
def place (t : Text) (pos : Int) (start stop : Option Int) : Cursor :=
  ⟨t, pos, start.getD pos, stop.getD t.length⟩

/-- Is nothing left to read? -/
def atEnd (c : Cursor) : Bool := c.stop ≤ c.pos

/-- Is nothing left of the cursor? -/
def atStart (c : Cursor) : Bool := c.pos ≤ 0

/-- The character of the text at an integer position, which must be inside the text. -/
def charAt (t : Text) (i : Int) : Except Fault Char :=
  match t.at? i with
  | some c => .ok c
  | none => .error .outOfRange

/-- The current character, if it is seen. -/
def peek (c : Cursor) : Except Fault (Option Char) :=
  if 0 ≤ c.pos ∧ c.pos < c.stop then some <$> charAt c.text c.pos else .ok none

/-- Reads the current character.  Only `stop` is watched: before the text, positions count from its
end. -/
def next (c : Cursor) : Outcome (Option Char) :=
  if c.pos < c.stop then
    match charAt c.text (if c.pos < 0 then c.pos + c.text.length else c.pos) with
    | .ok ch => (.ok (some ch), { c with pos := c.pos + 1 })
    | .error f => (.error f, c)
  else (.ok none, c)

/-- Moves back by `n` characters and looks at the current one. -/
def backUp (n : Int) (c : Cursor) : Outcome (Option Char) :=
  let c := { c with pos := c.pos - n }
  (c.peek, c)

/-- Moves over the current character if it is seen and of the class. -/
def eat (p : Char → Bool) (c : Cursor) : Outcome Bool :=
  match c.peek with
  | .error f => (.error f, c)
  | .ok none => (.ok false, c)
  | .ok (some ch) => if p ch then (.ok true, { c with pos := c.pos + 1 }) else (.ok false, c)

/-- The text from the cursor on, as far as it is seen. -/
def ahead (c : Cursor) : Text :=
  if c.pos < 0 then [] else (c.text.drop c.pos.toNat).take (c.stop - c.pos).toNat

/-- Is there more to be seen than there is text? -/
def runsPast (c : Cursor) : Bool := c.text.length < c.stop && 0 ≤ c.pos && c.pos < c.stop

/-- Moves over all characters of the class that follow one another. -/
def eatWhile (p : Char → Bool) (c : Cursor) : Outcome Bool :=
  let run := c.ahead.takeWhile p
  let c' := { c with pos := c.pos + run.length }
  if c.runsPast && run.length == c.ahead.length then (.error .outOfRange, c')
  else (.ok !run.isEmpty, c')

/-- The text of the latest lexeme. -/
def current (c : Cursor) : Text := c.text.slice c.start c.pos

/-- A cursor as a message shows it. -/
def describe (c : Cursor) : String :=
  "Scanner(pos=" ++ toString c.pos ++ ", start=" ++ toString c.start ++ ", end=" ++
    toString c.stop ++ ")"

/-- Moves over the longest numeral in front of the cursor, and remembers where it begins. -/
def numeralForward (c : Cursor) : Outcome Bool :=
  let c := { c with start := c.pos }
  let n := Numeral.reach .forward c.ahead
  if c.runsPast && (Lexeme.certain (Lexeme.split .forward c.ahead)).1.isEmpty then
    (.error .outOfRange, { c with pos := max c.pos c.text.length })
  else (.ok (n != 0), { c with pos := c.pos + n })

/-- Remembers where the longest numeral begins that ends at the cursor, which stays. -/
def numeralBackward (c : Cursor) : Outcome Bool :=
  if c.text.length < c.pos then (.error .outOfRange, c)
  else
    let n := Numeral.reach .backward (c.text.behind c.pos)
    if n = 0 then (.ok false, c) else (.ok true, { c with start := c.pos - n })

/-- Looks for a numeral in a direction.  Forward the cursor moves over it and backward it stays, so
that in both cases the numeral lies between the start and the cursor. -/
def numeral : Direction → Cursor → Outcome Bool
  | .forward => numeralForward
  | .backward => numeralBackward

/-- May a sign stand at the cursor? -/
def admitsSign (c : Cursor) : Except Fault Bool :=
  if c.text.length < c.pos then .error .outOfRange
  else .ok (Lexeme.admitSign (Lexeme.split .backward (c.text.behind c.pos)))

end Cursor

end Reckoner
