import Reckoner.Journal
import Reckoner.Lexeme.Basic
import Reckoner.Settings
import Reckoner.Text.Quoted

/-!
# The expression in front of a position

Inside any text, the expression in front of a position is found by its lexemes alone: to the left of
the position numerals, operators, parentheses and, if wanted, blanks belong to it, up to a
parenthesis that opens before it.  A closing parenthesis at the position is taken in together with
those that follow it.
-/

namespace Reckoner

/-- A part of a text: from `start` up to `stop`. -/
structure Span where
  start : Nat
  stop : Nat
deriving DecidableEq, Repr

namespace Span

/-- The closing parentheses that wait for their partners once a lexeme further left has been taken
in, if it belongs to the expression: an opening parenthesis belongs to it only as a partner. -/
def takeIn (blanks : Bool) (waiting : Nat) : Lexeme → Option Nat
  | .numeral _ => some waiting
  | .symbol .rightParenthesis => some (waiting + 1)
  | .symbol .leftParenthesis => if waiting = 0 then none else some (waiting - 1)
  | .symbol _ => some waiting
  | .white c => if blanks && Text.isBlank c then some waiting else none
  | .foreign _ => none

/-- The length of the lexemes that are taken in from the right, and the closing parentheses that are
left without partners. -/
def reachLeft (blanks : Bool) : Nat → List Lexeme → Nat × Nat
  | waiting, [] => (0, waiting)
  | waiting, l :: ls =>
    match takeIn blanks waiting l with
    | none => (0, waiting)
    | some waiting =>
      let (n, left) := reachLeft blanks waiting ls
      (l.length + n, left)

/-- The position behind a closing parenthesis at `pos` and the closing parentheses, and blanks if
wanted, that follow it; any other position is kept. -/
def lookAhead (t : Text) (blanks : Bool) (pos : Int) : Int :=
  if t.at? pos = some ')' then
    let after := t.drop (pos.toNat + 1)
    pos + 1 + (after.takeWhile fun c => c == ')' || (blanks && Text.isBlank c)).length
  else pos

/-- The expression in front of a position of a text.  Blanks at its beginning do not belong to it.
A position outside the text, or one with nothing to its left that belongs to an expression, has no
expression in front of it; nor has one in front of which a closing parenthesis has no partner. -/
def find? (t : Text) (pos : Int) (ahead blanks : Bool) : Option Span :=
  let stop := if ahead then lookAhead t blanks pos else pos
  if stop ≤ 0 ∨ t.length < stop then none
  else
    let (n, waiting) := reachLeft blanks 0 (Lexeme.split .backward (t.behind stop))
    if n = 0 ∨ waiting ≠ 0 then none
    else
      let left := stop.toNat - n
      some ⟨left + ((t.drop left).takeWhile Text.isBlank).length, stop.toNat⟩

/-- The part of a text that a span names, empty if it ends before it begins. -/
def textOf (s : Span) (t : Text) : Text := t.slice s.start s.stop

/-- A span as messages show it, with both bounds. -/
def describe (s : Span) : String := "[" ++ toString s.start ++ ", " ++ toString s.stop ++ ")"

/-- What the journal keeps of an expression found in `t`. -/
def records (t : Text) : Option Span → List Record
  | some s => [⟨.debug, "formula.extract",
      "Extracted expression " ++ s.describe ++ " from " ++ Text.quotedString t⟩]
  | none => []

end Span

/-- The expression in front of a position of a text, by default in front of its end and with the
switches of the standard settings. -/
def extract (t : Text) (pos : Option Int) (ahead blanks : Option Bool) : Option Span :=
  Span.find? t (pos.getD t.length) (ahead.getD Settings.standard.lookAhead)
    (blanks.getD Settings.standard.blanks)

end Reckoner
