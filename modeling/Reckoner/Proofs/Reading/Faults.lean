import Reckoner.Cursor.Evaluate
import Reckoner.Proofs.Reading.Step

/-!
# The faults of a reading

Whatever a text holds and wherever a cursor stands in it, a parse that gives no tokens ends with a
malformed expression, with a numeral that denotes no number or with a position outside the text
(`Cursor.isOfReading_of_parse`), and an evaluation may in addition find that the tokens have no
value (`Cursor.isOfEvaluation_of_evaluate`).  The faults of names and of caches arise elsewhere.
-/

namespace Reckoner

namespace Fault

/-- The faults with which a parse may end. -/
def IsOfReading : Fault → Prop
  | malformed .. | notNumber _ | outOfRange => True
  | valueless _ | notOperator _ | notCategory _ | emptyCache => False

/-- The faults with which an evaluation may end. -/
def IsOfEvaluation : Fault → Prop
  | malformed .. | notNumber _ | outOfRange | valueless _ => True
  | notOperator _ | notCategory _ | emptyCache => False

/-- Evaluations parse first. -/
lemma IsOfReading.isOfEvaluation {f : Fault} (h : f.IsOfReading) : f.IsOfEvaluation := by
  cases f <;> first | exact trivial | exact h.elim

end Fault

variable {α β : Type} {P : Fault → Prop}

/-- The fault of one computation after another is that of the first or that of the second. -/
lemma fault_of_bind {x : Except Fault α} {g : α → Except Fault β}
    (hx : ∀ f, x = .error f → P f) (hg : ∀ a f, g a = .error f → P f) :
    ∀ f, x >>= g = .error f → P f := by
  intro f h
  cases x with
  | error e =>
    obtain rfl := Except.error.inj h
    exact hx e rfl
  | ok a => exact hg a f h

/-- A result in another form has the faults that it had. -/
lemma fault_of_map {x : Except Fault α} {g : α → β} (hx : ∀ f, x = .error f → P f) :
    ∀ f, g <$> x = .error f → P f := by
  intro f h
  cases x with
  | error e =>
    obtain rfl := Except.error.inj h
    exact hx e rfl
  | ok a => cases h

namespace Progress

variable {step column : Int} {dir : Direction} {p : Progress}

/-- A category that may not come next makes the expression malformed. -/
lemma isOfReading_of_require {cat : Category} {reason : Reason} :
    ∀ f, p.require dir cat reason column = .error f → f.IsOfReading := by
  intro f h
  unfold require at h
  split at h
  · cases h
  · obtain rfl := Except.error.inj h
    trivial

/-- A numeral is out of place or denotes no number. -/
lemma isOfReading_of_readNumber {t : Text} :
    ∀ f, p.readNumber dir column t = .error f → f.IsOfReading := by
  have hnumeral : ∀ f, Token.ofNumeral t = .error f → f.IsOfReading := by
    intro f h
    unfold Token.ofNumeral at h
    split at h
    · cases h
    · obtain rfl := Except.error.inj h
      trivial
  exact fault_of_bind isOfReading_of_require fun _ => fault_of_bind hnumeral fun _ _ h => by cases h

/-- The fault of a lexeme from the left. -/
lemma isOfReading_of_readForward {l : Lexeme} :
    ∀ f, p.readForward step column l = .error f → f.IsOfReading := by
  intro f h
  have hpush : ∀ {q : Progress} {g : Fault}, (return q : Except Fault Progress) = .error g →
      g.IsOfReading := by
    intro q g h
    cases h
  unfold readForward at h
  split at h
  · cases h
  · obtain rfl := Except.error.inj h
    trivial
  · exact isOfReading_of_readNumber f h
  · exact fault_of_bind isOfReading_of_require (fun _ _ => hpush) f h
  · split at h
    · obtain rfl := Except.error.inj h
      trivial
    · exact fault_of_bind isOfReading_of_require (fun _ _ => hpush) f h
  · split at h
    · cases h
    · exact fault_of_bind isOfReading_of_require (fun _ _ => hpush) f h

/-- The fault of a lexeme from the right. -/
lemma isOfReading_of_readBackward {left : List Lexeme} {l : Lexeme} :
    ∀ f, p.readBackward step column left l = .error f → f.IsOfReading := by
  intro f h
  unfold readBackward at h
  split at h
  · cases h
  · cases h
  · exact fault_of_map isOfReading_of_readNumber f h
  · cases h
  · split at h
    · cases h
    · split at h
      · obtain rfl := Except.error.inj h
        trivial
      · cases h
  · split at h
    · cases h
    · cases h

/-- The end of an expression that is not complete makes it malformed. -/
lemma isOfReading_of_finish {infixOrder : List Token} :
    ∀ f, p.finish infixOrder column = .error f → f.IsOfReading := by
  intro f h
  unfold finish at h
  split at h
  · obtain rfl := Except.error.inj h
    trivial
  · split at h
    · cases h
    · obtain rfl := Except.error.inj h
      trivial

/-- The fault of a pass from the left is that of one of its lexemes. -/
lemma isOfReading_of_pass_forward {start pos : Int} {row : List Lexeme} :
    ∀ f, (Pass.forward step p start pos row).progress = .error f → f.IsOfReading := by
  induction row generalizing p start pos with
  | nil =>
    intro f h
    cases h
  | cons l row ih =>
    intro f h
    unfold Pass.forward at h
    split at h
    · rename_i hread
      obtain rfl := Except.error.inj h
      exact isOfReading_of_readForward _ hread
    · exact ih f h

/-- The fault of a pass from the right is that of one of its lexemes. -/
lemma isOfReading_of_pass_backward {start pos : Int} {row : List Lexeme} :
    ∀ f, (Pass.backward step p start pos row).progress = .error f → f.IsOfReading := by
  induction row generalizing p start pos with
  | nil =>
    intro f h
    cases h
  | cons l row ih =>
    intro f h
    rw [Pass.backward] at h
    split at h
    · rename_i hread
      obtain rfl := Except.error.inj h
      exact isOfReading_of_readBackward _ hread
    · cases h
    · exact ih f h

end Progress

namespace Cursor

open Progress

variable {c : Cursor} {dir : Direction}

/-- Moving over characters may lead to the edge of the text. -/
lemma isOfReading_of_eatWhile {p : Char → Bool} :
    ∀ f, (c.eatWhile p).1 = .error f → f.IsOfReading := by
  intro f h
  simp only [eatWhile] at h
  split at h
  · obtain rfl := Except.error.inj h
    trivial
  · cases h

/-- A parse without tokens ends with a fault of a reading. -/
theorem isOfReading_of_parse {step : Int} :
    ∀ f, (c.parseWith step dir).1 = .error f → f.IsOfReading := by
  intro f h
  cases dir with
  | forward =>
    simp only [parseWith, parseForward] at h
    split at h
    · cases h
    split at h
    · obtain rfl := Except.error.inj h
      trivial
    split at h
    · split at h
      · rename_i hpass
        obtain rfl := Except.error.inj h
        exact isOfReading_of_pass_forward _ hpass
      · obtain rfl := Except.error.inj h
        trivial
    · exact fault_of_bind isOfReading_of_pass_forward (fun _ => isOfReading_of_finish) f h
  | backward =>
    simp only [parseWith, parseBackward] at h
    split at h
    · obtain rfl := Except.error.inj h
      trivial
    · split at h
      · rename_i hsettle
        obtain rfl := Except.error.inj h
        exact fault_of_bind isOfReading_of_pass_backward (fun _ => isOfReading_of_finish) _
          (congrArg Prod.fst hsettle)
      · split at h
        · rename_i hskip
          obtain rfl := Except.error.inj h
          exact isOfReading_of_eatWhile _ (congrArg Prod.fst hskip)
        · cases h

/-- An evaluation parses, and then evaluates the tokens. -/
lemma evaluate_fst (dir : Direction) (c : Cursor) :
    (c.evaluate dir).1 =
      (c.parse dir).1 >>= fun ts => (Reckoner.evaluate ts).mapError .valueless := by
  unfold evaluate
  split
  · rename_i hparse
    rw [hparse]
    rfl
  · rename_i hparse
    rw [hparse]
    rfl

/-- An evaluation without a value ends with a fault of a reading or finds that the tokens have no
value. -/
theorem isOfEvaluation_of_evaluate :
    ∀ f, (c.evaluate dir).1 = .error f → f.IsOfEvaluation := by
  have hreading : ∀ f, (c.parse dir).1 = .error f → f.IsOfEvaluation :=
    fun f h => (isOfReading_of_parse f h).isOfEvaluation
  rw [evaluate_fst]
  refine fault_of_bind hreading fun ts f h => ?_
  cases hvalue : Reckoner.evaluate ts with
  | ok v => simp [hvalue, Except.mapError] at h
  | error cause =>
    rw [hvalue] at h
    obtain rfl := Except.error.inj h
    trivial

end Cursor

end Reckoner
