import Reckoner.Session.Basic

/-!
# Batches

A batch is evaluated text by text.  A text that is no expression, or has no value, gets a row with
the message of its fault, and the batch goes on.
-/

namespace Reckoner

/-- What a batch tells of one text.  A text without a value has the result that is no number. -/
structure Row where
  text : Text
  result : Float
  error : Option String

namespace Row

/-- The double that is no number. -/
def noNumber : Float := Double.ofMagnitude false (Double.infinity + Nat.pow 2 51)

/-- The row of a text whose evaluation had a value or none. -/
def ofValue (t : Text) (v : Option Float) : Row := ⟨t, v.getD noNumber, none⟩

/-- The row of a text whose evaluation failed. -/
def ofFault (t : Text) (f : Fault) : Row := ⟨t, noNumber, some f.message⟩

end Row

namespace Session

/-- What the journal keeps of a text that failed in a batch. -/
def failure (t : Text) (f : Fault) : Record :=
  ⟨.warning, speaker, "Failed to evaluate '" ++ excerpt t ++ "': " ++ f.message⟩

/-- One row for every text, in order. -/
def evaluateMany (s : Session) (dir : Direction) : List Text → Step (List Row)
  | [] => ⟨.ok [], s, []⟩
  | t :: ts =>
    let step := s.evaluate dir t
    let row : Except Fault (Row × List Record) :=
      match step.result with
      | .ok v => .ok (.ofValue t v, [])
      | .error f => if f.isOfExpression then .ok (.ofFault t f, [failure t f]) else .error f
    match row with
    | .error f => ⟨.error f, step.session, step.records⟩
    | .ok (row, warnings) =>
      let rest := evaluateMany step.session dir ts
      ⟨(row :: ·) <$> rest.result, rest.session, step.records ++ warnings ++ rest.records⟩

end Session

end Reckoner
