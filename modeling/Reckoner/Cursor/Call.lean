import Reckoner.Cursor.Basic

/-!
# Calls of a cursor

What a cursor can be asked character by character, as data.  `perform` carries one call out, and
`after` is the cursor that a row of calls leaves.
-/

namespace Reckoner.Cursor

/-- What a cursor can be asked. -/
inductive Call
  | peek
  | next
  | backUp (n : Nat)
  | eat (p : Char → Bool)
  | eatWhile (p : Char → Bool)
  | atEnd
  | atStart
  | current

/-- What a call answers. -/
inductive Answer
  | character (ch : Option Char)
  | flag (b : Bool)
  | part (t : Text)

/-- Carries one call out. -/
def perform (c : Cursor) : Call → Outcome Answer
  | .peek => (.character <$> c.peek, c)
  | .next => c.next.map (.character <$> ·) id
  | .backUp n => (c.backUp n).map (.character <$> ·) id
  | .eat p => (c.eat p).map (.flag <$> ·) id
  | .eatWhile p => (c.eatWhile p).map (.flag <$> ·) id
  | .atEnd => (.ok (.flag c.atEnd), c)
  | .atStart => (.ok (.flag c.atStart), c)
  | .current => (.ok (.part c.current), c)

/-- The cursor after a row of calls, one after the other. -/
def after (c : Cursor) (calls : List Call) : Cursor :=
  calls.foldl (fun c call => (c.perform call).2) c

end Reckoner.Cursor
