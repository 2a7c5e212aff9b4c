import Reckoner.Session.Batch

/-!
# Operations of a session

What a session can be asked to do, as data.  `perform` carries one operation out, and `history` a
row of them, each in the session that the one before has left.
-/

namespace Reckoner.Session

/-- What a session can be asked to do. -/
inductive Operation
  | evaluate (dir : Direction) (t : Text)
  | evaluateTokens (ts : List Token)
  | evaluateCursor (dir : Direction) (c : Cursor)
  | evaluateAt (t : Text) (pos : Option Int)
  | evaluateMany (dir : Direction) (ts : List Text)
  | clear
  | setLimit (limit : Int)

/-- What an operation answers. -/
inductive Answer
  | value (v : Option Float)
  | rows (rs : List Row)
  | done

/-- The same step with another form of its result. -/
def Step.map {α β : Type} (f : α → β) (step : Step α) : Step β :=
  ⟨f <$> step.result, step.session, step.records⟩

/-- Carries one operation out. -/
def perform (s : Session) : Operation → Step Answer
  | .evaluate dir t => (s.evaluate dir t).map .value
  | .evaluateTokens ts => (s.evaluateTokens ts).map .value
  | .evaluateCursor dir c => (s.evaluateCursor dir c).map .value
  | .evaluateAt t pos => (s.evaluateAt t pos).map .value
  | .evaluateMany dir ts => (s.evaluateMany dir ts).map .rows
  | .clear => s.clear.map fun _ => .done
  | .setLimit limit => ⟨.ok .done, s.setLimit limit, []⟩

/-- Carries a row of operations out, one after the other. -/
def history (s : Session) : List Operation → List (Step Answer)
  | [] => []
  | op :: ops =>
    let step := s.perform op
    step :: history step.session ops

end Reckoner.Session
