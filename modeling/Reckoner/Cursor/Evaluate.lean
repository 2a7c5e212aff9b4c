import Reckoner.Cursor.Parse

/-!
# Evaluation from a cursor

The value of the expression at a cursor is that of its tokens.  `evaluateText` evaluates a whole
text in either direction.
-/

namespace Reckoner

namespace Cursor

/-- The value of the expression at the cursor. -/
def evaluate (dir : Direction) (c : Cursor) : Outcome (Option Float) :=
  match c.parse dir with
  | (.error f, c) => (.error f, c)
  | (.ok ts, c) => ((Reckoner.evaluate ts).mapError .valueless, c)

/-- What the journal keeps of an evaluation at the cursor. -/
def evaluateRecords (dir : Direction) (c : Cursor) : List Record :=
  let parsed := c.parse dir
  parseRecords dir parsed ++
    match parsed.1 with
    | .ok ts => (match Reckoner.evaluate ts with
      | .error cause => [cause.record]
      | .ok _ => [])
    | .error _ => []

end Cursor

/-- The value of a text; a text without tokens has none, without being an error. -/
def evaluateText (dir : Direction) (t : Text) : Except Fault (Option Float) :=
  ((Cursor.whole t dir).evaluate dir).1

end Reckoner
