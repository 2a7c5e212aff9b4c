import Reckoner.Proofs.Reading.Step

/-!
# Faults move with their columns

A reader uses the column of a lexeme for nothing but its faults.  If the lexemes stand elsewhere,
then the same lexemes are read and the same faults are found, each at the new column
(`Progress.readForward_relocate`, `Progress.readBackward_relocate`, `Progress.finish_relocate`).
-/

namespace Reckoner

namespace Fault

/-- The same fault, which shows at `g column` if it shows at a column. -/
def relocate (g : Int → Int) : Fault → Fault
  | malformed reason column => malformed reason (g column)
  | f => f

/-- The same fault, wherever it shows. -/
def unplaced : Fault → Fault := relocate fun _ => 0

end Fault

/-- The faults of one computation after another may be changed in each of them. -/
lemma mapError_bind {α β : Type} (h : Fault → Fault) (x : Except Fault α)
    (k : α → Except Fault β) :
    (x >>= k).mapError h = x.mapError h >>= fun a => (k a).mapError h := by
  cases x <;> rfl

/-- Where the faults of a computation are changed, it ends without a fault if it did so before. -/
lemma mapError_eq_ok_iff {ε ε' α : Type} {h : ε → ε'} {x : Except ε α} {a : α} :
    x.mapError h = .ok a ↔ x = .ok a := by
  cases x <;> simp [Except.mapError]

namespace Progress

variable {step column : Int} {dir : Direction} {p : Progress} (g : Int → Int)

/-- A category that may not come next shows where it stands. -/
lemma require_relocate (cat : Category) (reason : Reason) :
    p.require dir cat reason (g column) =
      (p.require dir cat reason column).mapError (.relocate g) := by
  unfold require
  split <;> rfl

/-- A category that may not come next shows where it stands, whatever follows on it. -/
lemma require_bind_relocate (cat : Category) (reason : Reason) (k : Progress → Progress) :
    (do let q ← p.require dir cat reason (g column); return k q : Except Fault Progress) =
      (do let q ← p.require dir cat reason column; return k q : Except Fault Progress).mapError
        (.relocate g) := by
  rw [mapError_bind, require_relocate]
  rfl

/-- A number that may not come next shows where it stands. -/
lemma readNumber_relocate (t : Text) :
    p.readNumber dir (g column) t = (p.readNumber dir column t).mapError (.relocate g) := by
  have hnumeral : (Token.ofNumeral t).mapError (.relocate g) = Token.ofNumeral t := by
    unfold Token.ofNumeral
    split <;> rfl
  unfold readNumber
  rw [mapError_bind, require_relocate]
  congr 1
  funext q
  rw [mapError_bind, hnumeral]
  rfl

/-- From the left, a lexeme is read wherever it stands, or shows where it stands. -/
theorem readForward_relocate (l : Lexeme) :
    p.readForward step (g column) l = (p.readForward step column l).mapError (.relocate g) := by
  cases l with
  | white c | foreign c => rfl
  | numeral t => exact readNumber_relocate g t
  | symbol op =>
    rcases arithmetic_or_parenthesis .forward op with hop | rfl | rfl
    · rw [readForward_symbol hop, readForward_symbol hop]
      split
      · rfl
      · exact require_bind_relocate g _ _ fun q => q.pushBinary step op
    · exact require_bind_relocate g _ _ fun q => { q with depth := p.depth + 1 }
    · rw [readForward_exit, readForward_exit]
      split
      · rfl
      · rename_i depth _
        exact require_bind_relocate g _ _
          fun q => { q with depth := depth }.pushEmpty p.expected.emptyGroup

/-- From the right, a lexeme is read wherever it stands, or shows where it stands. -/
theorem readBackward_relocate (left : List Lexeme) (l : Lexeme) :
    p.readBackward step (g column) left l =
      (p.readBackward step column left l).mapError (.relocate g) := by
  cases l with
  | white c | foreign c => rfl
  | numeral t =>
    rw [readBackward, readBackward, readNumber_relocate]
    cases p.readNumber .backward column t <;> rfl
  | symbol op =>
    rcases arithmetic_or_parenthesis .backward op with hop | rfl | rfl
    · rw [readBackward_symbol hop, readBackward_symbol hop]
      split <;> rfl
    · rfl
    · rw [readBackward_exit, readBackward_exit]
      split
      · rfl
      · split <;> rfl

/-- A reader that has not finished shows so at the given column. -/
lemma finish_relocate (infixOrder : List Token) :
    p.finish infixOrder (g column) = (p.finish infixOrder column).mapError (.relocate g) := by
  unfold finish
  split
  · rfl
  · split <;> rfl

end Progress

end Reckoner
