import Reckoner.Reading.Progress

/-!
# Passes over lexemes

A pass takes a reader over a row of lexemes and keeps track of positions.  Forward it ends with the
row or with a fault; backward it may also end at a lexeme that no longer belongs to the expression.
-/

namespace Reckoner

/-- How far a reader came: what it holds or the fault that stopped it, the position where its latest
lexeme begins, and the position that it has reached.  Forward every lexeme counts, backward only
numerals do. -/
structure Pass where
  progress : Except Fault Progress
  start : Int
  pos : Int

namespace Pass

/-- Reads lexemes from the left, the first of them at `pos`. -/
def forward (step : Int) (p : Progress) (start pos : Int) : List Lexeme → Pass
  | [] => ⟨.ok p, start, pos⟩
  | l :: ls =>
    match p.readForward step pos l with
    | .error f => ⟨.error f, pos, if l matches .foreign _ then pos else pos + l.length⟩
    | .ok q => forward step q (if l.isWhite then start else pos) (pos + l.length) ls

/-- Reads lexemes from the right, the first of them ending at `pos`. -/
def backward (step : Int) (p : Progress) (start pos : Int) : List Lexeme → Pass
  | [] => ⟨.ok p, start, pos⟩
  | l :: ls =>
    let left := pos - l.length
    let start' := if l.isNumeral then left else start
    match p.readBackward step left ls l with
    | .error f => ⟨.error f, start', if l.isNumeral then pos else left⟩
    | .ok none => ⟨.ok p, start, pos⟩
    | .ok (some q) => backward step q start' left ls

end Pass

end Reckoner
