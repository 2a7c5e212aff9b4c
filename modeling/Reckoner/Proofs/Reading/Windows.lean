import Reckoner.Proofs.Reading.Columns
import Reckoner.Proofs.Reading.Relocation

/-!
# Windows on a text

What a cursor parses is decided by the characters that it sees.  From the left these are the
characters from its place up to its stop: they are parsed as a text of their own, and a fault shows
as many columns further right as there are characters in front of the window.  From the right they
are the characters up to its place, with the columns that they have (`Cursor.parse_window`).

The lexemes of a window are those of its text, so only positions have to be compared, and a pass
moves with its positions (`Pass.forward_shift`), since all its faults do.
-/

namespace Reckoner

open Lexeme Progress

/-! ## Moving faults -/

namespace Fault

/-- The same fault, which shows `n` columns further right if it shows at a column. -/
def shift (n : Int) : Fault → Fault
  | malformed reason column => malformed reason (column + n)
  | f => f

/-- Moving all columns by the same distance is a way to relocate a fault. -/
lemma shift_eq_relocate (n : Int) : shift n = relocate (· + n) := by
  funext f
  cases f <;> rfl

end Fault

namespace Pass

/-- The same pass over lexemes that stand `n` columns further right. -/
def shift (n : Int) (pass : Pass) : Pass :=
  ⟨pass.progress.mapError (.shift n), pass.start + n, pass.pos + n⟩

variable {step : Int} {p q : Progress} {row : List Lexeme}

/-- From the left, a pass goes over lexemes wherever they stand, and moves with them. -/
theorem forward_shift (n start pos : Int) :
    forward step p (start + n) (pos + n) row = (forward step p start pos row).shift n := by
  induction row generalizing p start pos with
  | nil => rfl
  | cons l row ih =>
    unfold forward
    have hread : p.readForward step (pos + n) l =
        (p.readForward step pos l).mapError (.shift n) := by
      rw [Fault.shift_eq_relocate]
      exact Progress.readForward_relocate (· + n) l
    rw [hread]
    have hnext : pos + n + l.length = pos + l.length + n := by omega
    cases p.readForward step pos l with
    | error f =>
      simp only [Except.mapError, shift, hnext]
      split <;> rfl
    | ok q =>
      have hstart : (if l.isWhite then start + n else pos + n) =
          (if l.isWhite then start else pos) + n := by
        split <;> rfl
      simp only [Except.mapError, hnext, hstart]
      exact ih _ _

/-- From the left, a pass without a fault goes to the end of its row. -/
lemma pos_forward {start pos : Int} (h : (forward step p start pos row).progress = .ok q) :
    (forward step p start pos row).pos = pos + width row := by
  induction row generalizing p start pos with
  | nil => exact (Int.add_zero pos).symm
  | cons l row ih =>
    unfold forward at h ⊢
    split at h
    · cases h
    · rw [ih h, width]
      omega

end Pass

namespace Cursor

variable {t : Text} {a b q : Nat}

/-- From the left, a window that is not empty has the pass over the text that is seen in it, moved to
the place of the window. -/
lemma parse_forward_eq_settle (hab : a < b) (hb : b ≤ t.length) {pass : Pass}
    (hpass : Pass.forward Settings.standard.nestingStep (.start .forward) 0 0
      (split .forward (t.slice a b)) = pass) :
    (place t a none (some b)).parse .forward =
      (place t a none (some b)).settle (pass.shift a) fun p =>
        p.finish p.tokens.reverse (pass.start + a) := by
  have hseen : (place t a none (some b)).ahead = t.slice a b := by
    rw [Text.slice_natCast, List.drop_take]
    simp [place, ahead]
  have hopen : (place t a none (some b)).atEnd = false := by
    simpa [place, atEnd] using hab
  have hinside : (place t a none (some b)).runsPast = false := by
    have hstop : ¬ (t.length : Int) < b := by omega
    simp [place, runsPast, hstop]
  have hnonneg : ¬ ((place t a none (some b)).pos < 0) := Int.not_lt.mpr (Int.natCast_nonneg a)
  have hmoved : Pass.forward Settings.standard.nestingStep (.start .forward) (0 + a) (0 + a)
      (split .forward (t.slice a b)) = pass.shift a := hpass ▸ Pass.forward_shift a 0 0
  rw [Int.zero_add] at hmoved
  simp only [parse, parseWith, parseForward, hopen, hinside, hnonneg, hseen, Bool.false_eq_true,
    if_false]
  exact congrArg (fun pass : Pass => (place t a none (some b)).settle pass fun p =>
    p.finish p.tokens.reverse pass.start) hmoved

/-- From the left, a window is parsed as the text that is seen in it, and a fault shows as many
columns further right as there are characters in front of the window.  Where there is no fault, the
cursor is left at its stop. -/
theorem parse_forward_window (hab : a ≤ b) (hb : b ≤ t.length) :
    ((place t a none (some b)).parse .forward).1 =
        (Reckoner.parse .forward (t.slice a b)).mapError (.shift a) ∧
      ∀ ts, ((place t a none (some b)).parse .forward).1 = .ok ts →
        ((place t a none (some b)).parse .forward).2.pos = b := by
  rcases Nat.eq_or_lt_of_le hab with rfl | hlt
  · have hnothing : t.slice a a = [] := by
      rw [Text.slice_natCast, List.drop_take, Nat.sub_self, List.take_zero]
    have hend : (place t a none (some a)).parse .forward = (.ok [], place t a none (some a)) := by
      simp [parse, parseWith, parseForward, place, atEnd]
    rw [hend, hnothing]
    exact ⟨rfl, fun _ _ => rfl⟩
  · have hfinish (p : Progress) (ts : List Token) (column : Int) :
        p.finish ts (column + a) = (p.finish ts column).mapError (.shift a) := by
      rw [Fault.shift_eq_relocate]
      exact Progress.finish_relocate (· + a) ts
    have hlength : (t.slice a b).length = b - a := by
      rw [Text.slice_natCast, List.length_drop, List.length_take_of_le hb]
    have hne : t.slice a b ≠ [] := List.ne_nil_of_length_pos (by omega)
    generalize hpass : Pass.forward Settings.standard.nestingStep (.start .forward) 0 0
      (split .forward (t.slice a b)) = pass
    rw [parse_forward_eq_settle hlt hb hpass, parse_forward_eq hne hpass]
    constructor
    · rw [mapError_bind]
      exact congrArg (pass.progress.mapError (.shift a) >>= ·)
        (funext fun p => hfinish p _ _)
    · intro ts hts
      obtain ⟨q, hmoved, -⟩ := bind_eq_ok_iff.mp hts
      have hprogress := mapError_eq_ok_iff.mp hmoved
      subst hpass
      have hpos := Pass.pos_forward hprogress
      rw [width_split, hlength] at hpos
      change _ + (a : Int) = b
      omega

/-- From the right, a cursor parses what is in front of it as a text of its own. -/
theorem parse_backward_window (hq : q ≤ t.length) :
    ((place t q none none).parse .backward).1 = Reckoner.parse .backward (t.take q) := by
  have htake : (t.take q).length = q := List.length_take_of_le hq
  have hwhole : whole (t.take q) .backward = .place (t.take q) q none none := by
    unfold whole place
    rw [htake]
    rfl
  rw [Reckoner.parse, hwhole, parse_backward_fst hq rfl, parse_backward_fst htake.ge rfl,
    List.take_take, Nat.min_self]

/-- A window on a text is parsed as the text that is seen in it.  From the left, the cursor is left
at its stop, or the expression is malformed for the same reason, which shows as many columns further
right as there are characters in front of the window.  From the right, where everything in front of
the cursor is seen, the columns are the same.  Hence texts that are the same in the window are
parsed alike. -/
theorem parse_window (hab : a ≤ b) (hb : b ≤ t.length) (hq : q ≤ t.length) :
    ((∃ ts, Reckoner.parse .forward (t.slice a b) = .ok ts ∧
          ((place t a none (some b)).parse .forward).1 = .ok ts ∧
          ((place t a none (some b)).parse .forward).2.pos = b) ∨
        ∃ reason column,
          Reckoner.parse .forward (t.slice a b) = .error (.malformed reason column) ∧
          ((place t a none (some b)).parse .forward).1 =
            .error (.malformed reason (column + a))) ∧
      ((∃ ts, Reckoner.parse .backward (t.take q) = .ok ts ∧
          ((place t q none none).parse .backward).1 = .ok ts) ∨
        ∃ reason column,
          Reckoner.parse .backward (t.take q) = .error (.malformed reason column) ∧
          ((place t q none none).parse .backward).1 = .error (.malformed reason column)) ∧
      (∀ t' : Text, b ≤ t'.length → t'.slice a b = t.slice a b →
        ((place t' a none (some b)).parse .forward).1 =
          ((place t a none (some b)).parse .forward).1) ∧
      ∀ t' : Text, q ≤ t'.length → t'.take q = t.take q →
        ((place t' q none none).parse .backward).1 =
          ((place t q none none).parse .backward).1 := by
  obtain ⟨hforward, hstop⟩ := parse_forward_window hab hb
  have hbackward := parse_backward_window hq
  refine ⟨?forward, ?backward, ?alikeForward, ?alikeBackward⟩
  case forward =>
    cases hparse : Reckoner.parse .forward (t.slice a b) with
    | ok ts =>
      rw [hparse] at hforward
      exact .inl ⟨ts, rfl, hforward, hstop ts hforward⟩
    | error f =>
      obtain ⟨column, ⟨reason, rfl⟩, -⟩ := showsIn_of_parse f hparse
      rw [hparse] at hforward
      exact .inr ⟨reason, column, rfl, hforward⟩
  case backward =>
    cases hparse : Reckoner.parse .backward (t.take q) with
    | ok ts => exact .inl ⟨ts, rfl, hbackward.trans hparse⟩
    | error f =>
      obtain ⟨column, ⟨reason, rfl⟩, -⟩ := showsIn_of_parse f hparse
      exact .inr ⟨reason, column, rfl, hbackward.trans hparse⟩
  case alikeForward =>
    intro t' hb' hseen
    rw [(parse_forward_window hab hb').1, hforward, hseen]
  case alikeBackward =>
    intro t' hq' hseen
    rw [parse_backward_window hq', hbackward, hseen]

/-- In `7(2 - 3)4` the window on what is in the parentheses has the tokens of `2 - 3`, and the
cursor is left at the closing one.  From the right, in front of that, the opening parenthesis has no
partner. -/
theorem parse_window_in_parentheses :
    (∃ x y, ((place ['7', '(', '2', ' ', '-', ' ', '3', ')', '4'] 2 none (some 7)).parse
        .forward).1 = .ok [.number x 0, .number y 0, .binary .minus 0]) ∧
      ((place ['7', '(', '2', ' ', '-', ' ', '3', ')', '4'] 2 none (some 7)).parse
        .forward).2.pos = 7 ∧
      ((place ['7', '(', '2', ' ', '-', ' ', '3', ')', '4'] 7 none none).parse .backward).1 =
        .error (.malformed .unmatchedParentheses 1) := by
  let t : Text := ['7', '(', '2', ' ', '-', ' ', '3', ')', '4']
  have hlength : 7 ≤ t.length := by decide
  obtain ⟨hforward, hbackward, -, -⟩ :=
    parse_window (t := t) (a := 2) (b := 7) (q := 7) (by decide) hlength hlength
  obtain ⟨x, y, hinside⟩ : ∃ x y, Reckoner.parse .forward (t.slice (2 : Nat) (7 : Nat)) =
      .ok [.number x 0, .number y 0, .binary .minus 0] := ⟨_, _, rfl⟩
  have hbefore : Reckoner.parse .backward (t.take 7) =
      .error (.malformed .unmatchedParentheses 1) := rfl
  obtain ⟨ts, hts, hparse, hpos⟩ | ⟨_, _, hmalformed, -⟩ := hforward
  · obtain rfl := Except.ok.inj (hinside.symm.trans hts)
    obtain ⟨_, hts', -⟩ | ⟨reason, column, hmalformed, hshows⟩ := hbackward
    · cases hbefore.symm.trans hts'
    · cases hbefore.symm.trans hmalformed
      exact ⟨⟨x, y, hparse⟩, hpos, hshows⟩
  · cases hinside.symm.trans hmalformed

end Cursor

end Reckoner
