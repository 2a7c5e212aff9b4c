import Reckoner.Numeral
import Reckoner.Operator

/-!
# Lexemes

A text falls into lexemes: numerals, symbols, white characters and foreign characters.  Nothing is
lost (`flatMap_split`), so the positions of the lexemes are the sums of their lengths.
A text can be split from either end; a numeral is always the longest one at the place where the
reader stands, so the two splits differ where digits and points do not form one numeral, as in
`1.2.3`.
-/

namespace Reckoner

/-- The pieces that a text falls into. -/
inductive Lexeme
  | numeral (text : Text)
  | symbol (op : Operator)
  | white (c : Char)
  | foreign (c : Char)
deriving DecidableEq, Repr

namespace Lexeme

/-- The text of a lexeme. -/
def text : Lexeme → Text
  | numeral t => t
  | symbol op => [op.toChar]
  | white c | foreign c => [c]

/-- The number of characters of a lexeme. -/
def length (l : Lexeme) : Nat := l.text.length

/-- The lexeme of a character that belongs to no numeral. -/
def ofChar (c : Char) : Lexeme :=
  match Operator.ofChar? c with
  | some op => symbol op
  | none => if Text.isWhite c then white c else foreign c

/-- Is the lexeme a numeral? -/
def isNumeral : Lexeme → Bool
  | numeral _ => true
  | _ => false

/-- Is the lexeme a white character? -/
def isWhite : Lexeme → Bool
  | white _ => true
  | _ => false

/-- A part of a text in reading order, put into the order of writing. -/
def written : Direction → Text → Text
  | .forward => id
  | .backward => List.reverse

/-- The lexemes of a text in reading order, after the first `skip` characters have been passed
over as the rest of a numeral. -/
def splitFrom (dir : Direction) : Nat → Text → List Lexeme
  | _, [] => []
  | skip + 1, _ :: cs => splitFrom dir skip cs
  | 0, c :: cs =>
    match Numeral.reach dir (c :: cs) with
    | 0 => ofChar c :: splitFrom dir 0 cs
    | n + 1 => numeral (written dir ((c :: cs).take (n + 1))) :: splitFrom dir n cs

/-- The lexemes of a text, both in reading order. -/
def split (dir : Direction) (cs : Text) : List Lexeme := splitFrom dir 0 cs

/-! ## Nothing is lost -/

/-- The order of writing is the order of reading or its reverse, so turning a part over twice gives
it back. -/
@[simp] theorem written_written (dir : Direction) (t : Text) : written dir (written dir t) = t := by
  cases dir <;> simp [written]

/-- A single character reads the same in both orders. -/
@[simp] theorem written_singleton (dir : Direction) (c : Char) : written dir [c] = [c] := by
  cases dir <;> simp [written]

/-- A character is the whole text of its lexeme. -/
@[simp] theorem text_ofChar (c : Char) : (ofChar c).text = [c] := by
  unfold ofChar
  cases h : Operator.ofChar? c with
  | none => by_cases hw : Text.isWhite c <;> simp [text, hw]
  | some op => simp [text, Operator.toChar_of_ofChar? h]

/-- The lexemes behind the skipped characters make up the text behind them. -/
theorem flatMap_splitFrom (dir : Direction) (skip : Nat) (cs : Text) :
    (splitFrom dir skip cs).flatMap (fun l => written dir l.text) = cs.drop skip := by
  induction cs generalizing skip with
  | nil => simp [splitFrom]
  | cons c cs ih =>
    cases skip with
    | succ skip => simpa [splitFrom] using ih skip
    | zero =>
      cases h : Numeral.reach dir (c :: cs) with
      | zero => simpa [splitFrom, h] using ih 0
      | succ n =>
        have head (t : Text) : (numeral t).text = t := rfl
        simp [splitFrom, h, head, ih n]

/-- The lexemes of a text, one after the other, are the text. -/
theorem flatMap_split (dir : Direction) (cs : Text) :
    (split dir cs).flatMap (fun l => written dir l.text) = cs := by
  simpa [split] using flatMap_splitFrom dir 0 cs

/-- The number of characters of a row of lexemes. -/
def width : List Lexeme → Nat
  | [] => 0
  | l :: ls => l.length + width ls

/-- The texts of a row have as many characters as the row. -/
theorem length_flatMap (dir : Direction) (ls : List Lexeme) :
    (ls.flatMap fun l => written dir l.text).length = width ls := by
  induction ls with
  | nil => rfl
  | cons l ls ih =>
    have hwritten : (written dir l.text).length = l.length := by
      cases dir <;> simp [length, written]
    rw [List.flatMap_cons, List.length_append, ih, hwritten]
    rfl

/-- The lexemes of a text are as long as the text. -/
theorem width_split (dir : Direction) (cs : Text) : width (split dir cs) = cs.length := by
  rw [← length_flatMap dir, flatMap_split]

/-! ## Signs -/

/-- May a sign stand to the right of these lexemes, the nearest first?  It may where nothing, an
arithmetic operator or an opening parenthesis comes before it, white characters apart. -/
def admitSign : List Lexeme → Bool
  | [] => true
  | white _ :: ls => admitSign ls
  | symbol op :: _ => op != .rightParenthesis
  | _ :: _ => false

end Lexeme

end Reckoner
