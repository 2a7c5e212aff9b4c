import Reckoner.Cursor.Basic
import Reckoner.Reading.Pass
import Reckoner.Settings

/-!
# Parsing from a cursor

Forward, everything from the cursor to its stop must be one expression.  Backward, the expression is
the one that ends at the cursor: reading goes left as far as lexemes fit, and the cursor is left at
the first character of the expression.  `parse` reads a whole text in either direction.
`Cursor.parseRecords` is what the journal keeps of a parse.
-/

namespace Reckoner

namespace Cursor

/-- The tokens of a finished pass, which took `c` to its place. -/
def settle (c : Cursor) (pass : Pass) (finish : Progress → Except Fault (List Token)) :
    Outcome (List Token) :=
  (pass.progress >>= finish, { c with start := pass.start, pos := pass.pos })

/-- Parses everything in front of the cursor.  Where more is to be seen than there is text, the
reader comes to the edge of the text and has no character to read. -/
def parseForward (step : Int) (c : Cursor) : Outcome (List Token) :=
  if c.atEnd then (.ok [], c)
  else if c.pos < 0 then
    (.error (.malformed .unknownCharacter c.pos), { c with start := c.pos })
  else
    let lexemes := Lexeme.split .forward c.ahead
    if c.runsPast then
      let (certain, cut) := Lexeme.certain lexemes
      let pass := Pass.forward step (.start .forward) c.start c.pos certain
      match pass.progress with
      | .error f => (.error f, { c with start := pass.start, pos := pass.pos })
      | .ok _ =>
        (.error .outOfRange,
          { c with start := if cut.isSome then pass.pos else pass.start,
                   pos := max c.pos c.text.length })
    else
      let pass := Pass.forward step (.start .forward) c.start c.pos lexemes
      c.settle pass fun p => p.finish p.tokens.reverse pass.start

/-- Parses the expression that ends at the cursor. -/
def parseBackward (step : Int) (c : Cursor) : Outcome (List Token) :=
  if c.text.length < c.pos then (.error .outOfRange, c)
  else
    let lexemes := Lexeme.hideFrom c.stop c.pos (Lexeme.split .backward (c.text.behind c.pos))
    let pass := Pass.backward step (.start .backward) c.start c.pos lexemes
    match c.settle pass fun p => p.finish p.tokens pass.pos with
    | (.error f, c) => (.error f, c)
    | (.ok ts, c) =>
      match c.eatWhile Text.isWhite with
      | (.error f, c) => (.error f, c)
      | (.ok _, c) => (.ok ts, c)

/-- Parses in a direction, with a given nesting step. -/
def parseWith (step : Int) : Direction → Cursor → Outcome (List Token)
  | .forward => parseForward step
  | .backward => parseBackward step

/-- Parses in a direction, with the nesting step of the standard settings. -/
def parse (dir : Direction) (c : Cursor) : Outcome (List Token) :=
  c.parseWith Settings.standard.nestingStep dir

end Cursor

/-- The tokens of a text in evaluation order. -/
def parse (dir : Direction) (t : Text) : Except Fault (List Token) :=
  ((Cursor.whole t dir).parse dir).1

namespace Cursor

/-- What the journal keeps of a parse, given its outcome. -/
def parseRecords (dir : Direction) : Outcome (List Token) → List Record
  | (.ok ts, c) =>
    match dir with
    | .forward => [⟨.debug, speaker, "Forward parse of " ++ Text.quotedString c.text ++ ": " ++
        toString ts.length ++ " tokens"⟩]
    | .backward => [⟨.debug, speaker, "Backward parse of " ++ Text.quotedString c.text ++ ": " ++
        toString ts.length ++ " tokens, starts at " ++ toString c.pos⟩]
  | (.error (.malformed reason column), c) =>
    [⟨.debug, speaker, "Parse error: " ++ reason.message ++ " at " ++ toString column ++ " in " ++
        Text.quotedString c.text⟩]
  | (.error _, _) => []
where
  speaker := "core.parser"

end Cursor

end Reckoner
