import Mathlib.Order.Monotone.Basic
import Reckoner.Proofs.Reparsing

/-!
# The nesting step

What a pair of parentheses adds to the priority of an operator does not matter, as long as it is
more than any operator adds of its own: with any two such steps, a text has the same tokens but for
their priorities, or the same fault (`parseWith_steps`).

With the least such step, which is three, the priority `p` belongs to the depth `p / 3` and the
offset `p % 3`.  `Priority.widen` puts the two together again with another step.  It keeps the order
of all integers, so it need not be known which priorities occur.  A reader does not look at
priorities, and ordering only compares them.  Hence what is parsed with any step is the image of
what is parsed with step three, and the faults are the same (`Cursor.parseWith_eq_widen`).
-/

namespace Reckoner

/-! ## Priorities -/

/-- The priority with the depth and the offset that `p` has for the step three. -/
def Priority.widen (step p : Int) : Int := step * (p / 3) + p % 3

namespace Priority

variable {step : Int}

/-- Depth and offset of a priority are found again. -/
lemma widen_of_offset (step : Int) (depth : Nat) {offset : Int} (h : 0 ≤ offset)
    (h' : offset ≤ 2) : widen step (3 * depth + offset) = step * depth + offset := by
  have hdepth : (3 * (depth : Int) + offset) / 3 = depth := by omega
  have hoffset : (3 * (depth : Int) + offset) % 3 = offset := by omega
  rw [widen, hdepth, hoffset]

/-- If the step is greater than every offset, then priorities are compared by their depths first and
then by their offsets, whatever the step is. -/
theorem strictMono_widen (h : 2 < step) : StrictMono (widen step) := by
  intro p q hpq
  have hdepths : p / 3 ≤ q / 3 := Int.ediv_le_ediv (by decide) hpq.le
  rcases Int.lt_or_eq_of_le hdepths with hdepth | hdepth
  · -- One more level outweighs every offset.
    have hlevel : step * (p / 3) + step ≤ step * (q / 3) := by
      have hstep : 0 ≤ step := by omega
      have hmul := Int.mul_le_mul_of_nonneg_left (Int.add_one_le_of_lt hdepth) hstep
      rwa [Int.mul_add, Int.mul_one] at hmul
    unfold widen
    omega
  · unfold widen
    rw [hdepth]
    omega

end Priority

/-! ## Tokens -/

namespace Token

variable {step : Int}

/-- A token with its priority for another step. -/
def widen (step : Int) : Token → Token
  | number v p => .number v (Priority.widen step p)
  | unary op p => .unary op (Priority.widen step p)
  | binary op p => .binary op (Priority.widen step p)
  | empty tag p => .empty tag (Priority.widen step p)

@[simp] lemma priority_widen (t : Token) :
    (t.widen step).priority = Priority.widen step t.priority := by
  cases t <;> rfl

@[simp] lemma arity_widen (t : Token) : (t.widen step).arity = t.arity := by
  cases t <;> rfl

@[simp] lemma bare_widen (t : Token) : (t.widen step).bare = t.bare := by
  cases t <;> rfl

@[simp] lemma widen_number (v : Float) : widen step (.number v 0) = .number v 0 := by
  simp [widen, Priority.widen]

@[simp] lemma widen_emptyGroup : widen step emptyGroup = emptyGroup := by
  simp [widen, emptyGroup, Priority.widen]

/-- A unary operator has the same offset with every step. -/
@[simp] lemma widen_unaryAt (depth : Nat) (op : Operator) :
    widen step (unaryAt (3 * depth) op) = unaryAt (step * depth) op := by
  have hoffset : 0 ≤ unaryOffset op ∧ unaryOffset op ≤ 2 := by cases op <;> decide
  rw [unaryAt, widen, Priority.widen_of_offset step depth hoffset.1 hoffset.2]
  rfl

/-- A binary operator has the same offset with every step. -/
@[simp] lemma widen_binaryAt (depth : Nat) (op : Operator) :
    widen step (binaryAt (3 * depth) op) = binaryAt (step * depth) op := by
  have hoffset : 0 ≤ binaryOffset op ∧ binaryOffset op ≤ 2 := by cases op <;> decide
  rw [binaryAt, widen, Priority.widen_of_offset step depth hoffset.1 hoffset.2]
  rfl

/-- The priorities of another step arrange the tokens in the same order. -/
lemma arrange_widen (h : 2 < step) (waiting ts : List Token) :
    arrange (waiting.map (widen step)) (ts.map (widen step)) =
      (arrange waiting ts).map (widen step) := by
  induction ts generalizing waiting with
  | nil => rfl
  | cons t ts ih =>
    cases t with
    | number v p =>
      exact congrArg (_ :: ·) (ih waiting)
    | empty tag p =>
      exact congrArg (_ :: ·) (ih waiting)
    | unary op p => exact ih (.unary op p :: waiting)
    | binary op p =>
      have hcompare : (fun t : Token => decide (Priority.widen step p ≤ t.priority)) ∘ widen step =
          fun t => decide (p ≤ t.priority) := by
        funext t
        simp [(Priority.strictMono_widen h).le_iff_le]
      rw [List.map_cons, widen, arrange_binary, arrange_binary, List.takeWhile_map,
        List.dropWhile_map, hcompare, List.map_append]
      exact congrArg (_ ++ ·) (ih (.binary op p :: waiting.dropWhile _))

/-- The priorities of another step make no difference to the number of operands that are used up. -/
lemma balanced_widen (ts : List Token) : balanced (ts.map (widen step)) = balanced ts := by
  have hconsumed : consumed (ts.map (widen step)) = consumed ts := by
    induction ts with
    | nil => rfl
    | cons t ts ih => rw [List.map_cons, consumed_cons, consumed_cons, arity_widen, ih]
  rw [balanced, balanced, hconsumed, List.length_map]

end Token

/-- The priorities of another step order the tokens in the same way. -/
theorem order_widen {step : Int} (h : 2 < step) (ts : List Token) :
    order (ts.map (Token.widen step)) = (order ts).map (List.map (Token.widen step)) := by
  cases ts with
  | nil => rfl
  | cons t ts =>
    have harrange := Token.arrange_widen h [] (t :: ts)
    rw [List.map_nil] at harrange
    simp only [order, List.isEmpty_cons, List.isEmpty_map, Bool.false_eq_true, if_false, harrange,
      Token.balanced_widen]
    split <;> rfl

/-! ## Readers -/

namespace Progress

variable {step column : Int} {dir : Direction} {p : Progress}

/-- A reader with its tokens for another step. -/
def widen (step : Int) (p : Progress) : Progress :=
  { p with tokens := p.tokens.map (Token.widen step) }

/-- Whether a category is accepted does not depend on the tokens. -/
lemma accept_widen (cat : Category) :
    (p.widen step).accept dir cat = (p.accept dir cat).map (widen step) := by
  unfold accept widen
  cases p.expected.after? dir cat <;> rfl

/-- Whether a category that has to come next is accepted does not depend on the tokens. -/
lemma require_widen (cat : Category) (reason : Reason) :
    (p.widen step).require dir cat reason column =
      (p.require dir cat reason column).map (widen step) := by
  unfold require
  rw [accept_widen]
  cases p.accept dir cat <;> rfl

/-- The same, whatever follows on the category. -/
lemma require_bind_widen {cat : Category} {reason : Reason} {k g : Progress → Progress}
    (hk : ∀ q, g (q.widen step) = (k q).widen step) :
    (do let q ← (p.widen step).require dir cat reason column; return g q :
      Except Fault Progress) =
      (do let q ← p.require dir cat reason column; return k q :
        Except Fault Progress).map (widen step) := by
  rw [require_widen]
  cases p.require dir cat reason column with
  | error f => rfl
  | ok q => exact congrArg Except.ok (hk q)

/-- A sign has the same offset with every step. -/
lemma pushSign_widen (op : Operator) :
    (p.widen step).pushSign step op = (p.pushSign 3 op).widen step := by
  unfold pushSign
  split
  · simp [push, widen, base]
  · rfl

/-- A binary operator has the same offset with every step. -/
lemma pushBinary_widen (op : Operator) :
    (p.widen step).pushBinary step op = (p.pushBinary 3 op).widen step := by
  simp [pushBinary, push, widen, base]

/-- The marker of an empty group is the same with every step. -/
lemma pushEmpty_widen (here : Bool) :
    (p.widen step).pushEmpty here = (p.pushEmpty here).widen step := by
  cases here
  · rfl
  · simp [pushEmpty, push, widen]

/-- A number is read in the same way with every step. -/
lemma readNumber_widen (t : Text) :
    (p.widen step).readNumber dir column t = (p.readNumber dir column t).map (widen step) := by
  unfold readNumber
  rw [require_widen]
  cases p.require dir .number .unexpectedNumber column with
  | error f => rfl
  | ok q =>
    cases hk : Token.ofNumeral t with
    | error f => rfl
    | ok k =>
      obtain ⟨v, rfl⟩ := exists_number_of_ofNumeral hk
      have hpush : (q.widen step).push (.number v 0) = (q.push (.number v 0)).widen step := by
        simp [push, widen]
      exact congrArg Except.ok hpush

/-- From the left, a lexeme is read in the same way with every step. -/
theorem readForward_widen (l : Lexeme) :
    (p.widen step).readForward step column l = (p.readForward 3 column l).map (widen step) := by
  cases l with
  | white c | foreign c => rfl
  | numeral t => exact readNumber_widen t
  | symbol op =>
    rcases arithmetic_or_parenthesis .forward op with hop | rfl | rfl
    · have hsign : (if op.isSign then (p.widen step).accept .forward .sign else none) =
          (if op.isSign then p.accept .forward .sign else none).map (widen step) := by
        rw [accept_widen]
        split <;> rfl
      rw [readForward_symbol hop, readForward_symbol hop, hsign]
      cases if op.isSign then p.accept .forward .sign else none with
      | none => exact require_bind_widen fun q => pushBinary_widen op
      | some q => exact congrArg Except.ok (pushSign_widen op)
    · exact require_bind_widen (k := fun q => { q with depth := p.depth + 1 }) fun q => rfl
    · have hdepth : (p.widen step).depth = p.depth := rfl
      rw [readForward_exit, readForward_exit, hdepth]
      cases p.depth with
      | zero => rfl
      | succ depth =>
        exact require_bind_widen
          (k := fun q => { q with depth := depth }.pushEmpty p.expected.emptyGroup)
          (g := fun q => { q with depth := depth }.pushEmpty p.expected.emptyGroup)
          fun q => pushEmpty_widen (p := { q with depth := depth }) p.expected.emptyGroup

/-- From the right, a lexeme is read in the same way with every step. -/
theorem readBackward_widen (left : List Lexeme) (l : Lexeme) :
    (p.widen step).readBackward step column left l =
      (p.readBackward 3 column left l).map (Option.map (widen step)) := by
  cases l with
  | white c | foreign c => rfl
  | numeral t =>
    rw [readBackward, readBackward, readNumber_widen]
    cases p.readNumber .backward column t <;> rfl
  | symbol op =>
    rcases arithmetic_or_parenthesis .backward op with hop | rfl | rfl
    · have hsign : (if op.isSign && Lexeme.admitSign left then
            (p.widen step).accept .backward .sign else none) =
          (if op.isSign && Lexeme.admitSign left then p.accept .backward .sign else none).map
            (widen step) := by
        rw [accept_widen]
        split <;> rfl
      rw [readBackward_symbol hop, readBackward_symbol hop, hsign, accept_widen]
      cases if op.isSign && Lexeme.admitSign left then p.accept .backward .sign else none with
      | none =>
        cases p.accept .backward .operator with
        | none => rfl
        | some q => exact congrArg (Except.ok ∘ some) (pushBinary_widen op)
      | some q => exact congrArg (Except.ok ∘ some) (pushSign_widen op)
    · rw [readBackward_entry, readBackward_entry, accept_widen]
      cases p.accept .backward .closing <;> rfl
    · have hdepth : (p.widen step).depth = p.depth := rfl
      rw [readBackward_exit, readBackward_exit, accept_widen, hdepth]
      cases p.accept .backward .opening with
      | none => rfl
      | some q =>
        cases p.depth with
        | zero => rfl
        | succ depth =>
          exact congrArg (Except.ok ∘ some)
            (pushEmpty_widen (p := { q with depth := depth }) p.expected.emptyGroup)

/-- An expression ends in the same way with every step. -/
lemma finish_widen (h : 2 < step) (infixOrder : List Token) :
    (p.widen step).finish (infixOrder.map (Token.widen step)) column =
      (p.finish infixOrder column).map (List.map (Token.widen step)) := by
  have hdepth : (p.widen step).depth = p.depth := rfl
  unfold finish
  rw [order_widen h, hdepth]
  split
  · rfl
  · cases order infixOrder <;> rfl

end Progress

/-! ## Passes and cursors -/

open Progress

namespace Pass

variable {step : Int} {p : Progress}

/-- A pass with its tokens for another step. -/
def widen (step : Int) (pass : Pass) : Pass :=
  { pass with progress := pass.progress.map (Progress.widen step) }

/-- From the left, a pass is the same with every step. -/
theorem forward_widen (start pos : Int) (row : List Lexeme) :
    forward step (p.widen step) start pos row = (forward 3 p start pos row).widen step := by
  induction row generalizing p start pos with
  | nil => rfl
  | cons l row ih =>
    unfold forward
    rw [readForward_widen]
    cases p.readForward 3 pos l with
    | error f => rfl
    | ok q => exact ih _ _

/-- From the right, a pass is the same with every step. -/
theorem backward_widen (start pos : Int) (row : List Lexeme) :
    backward step (p.widen step) start pos row = (backward 3 p start pos row).widen step := by
  induction row generalizing p start pos with
  | nil => rfl
  | cons l row ih =>
    simp only [backward, readBackward_widen]
    rcases p.readBackward 3 (pos - l.length) row l with f | _ | q
    · rfl
    · rfl
    · exact ih _ _

end Pass

namespace Cursor

variable {step : Int}

/-- An outcome with its tokens for another step. -/
def Outcome.widen (step : Int) : Outcome (List Token) → Outcome (List Token) :=
  Prod.map (Except.map (List.map (Token.widen step))) id

/-- A finished pass gives the same with every step. -/
lemma settle_widen (h : 2 < step) (dir : Direction) (c : Cursor) (pass : Pass) (column : Int) :
    (c.settle (pass.widen step) fun p => p.finish (dir.infixOrder p.tokens) column) =
      Outcome.widen step
        (c.settle pass fun p => p.finish (dir.infixOrder p.tokens) column) := by
  refine Prod.ext ?_ rfl
  change pass.progress.map (Progress.widen step) >>= _ = (pass.progress >>= _).map _
  cases pass.progress with
  | error f => rfl
  | ok p =>
    have hwritten : dir.infixOrder (p.widen step).tokens =
        (dir.infixOrder p.tokens).map (Token.widen step) := by
      cases dir
      · exact List.map_reverse.symm
      · rfl
    change (p.widen step).finish (dir.infixOrder (p.widen step).tokens) column = _
    rw [hwritten]
    exact finish_widen h _

/-- From the left, a cursor parses the same with every step. -/
lemma parseForward_widen (h : 2 < step) (c : Cursor) :
    c.parseForward step = (c.parseForward 3).widen step := by
  have hpass (row : List Lexeme) : Pass.forward step (.start .forward) c.start c.pos row =
      (Pass.forward 3 (.start .forward) c.start c.pos row).widen step :=
    Pass.forward_widen (p := .start .forward) c.start c.pos row
  unfold parseForward
  split
  · rfl
  split
  · rfl
  simp only [hpass]
  split
  · generalize Pass.forward 3 (.start .forward) c.start c.pos _ = pass
    obtain ⟨f | p, start, pos⟩ := pass <;> rfl
  · exact settle_widen h .forward c _ _

/-- From the right, a cursor parses the same with every step. -/
lemma parseBackward_widen (h : 2 < step) (c : Cursor) :
    c.parseBackward step = (c.parseBackward 3).widen step := by
  have hpass (row : List Lexeme) : Pass.backward step (.start .backward) c.start c.pos row =
      (Pass.backward 3 (.start .backward) c.start c.pos row).widen step :=
    Pass.backward_widen (p := .start .backward) c.start c.pos row
  unfold parseBackward
  split
  · rfl
  have hsettle (pass : Pass) :
      (c.settle (pass.widen step) fun p => p.finish p.tokens (pass.widen step).pos) =
        (c.settle pass fun p => p.finish p.tokens pass.pos).widen step :=
    settle_widen h .backward c pass pass.pos
  simp only [hpass, hsettle]
  generalize c.settle _ _ = outcome
  obtain ⟨f | ts, after⟩ := outcome
  · rfl
  · simp only [Outcome.widen, Prod.map, Except.map, id]
    split <;> rfl

/-- A cursor parses the same with every step, and is left at the same place; only the priorities of
the tokens are those of the step. -/
theorem parseWith_eq_widen (h : 2 < step) (dir : Direction) (c : Cursor) :
    c.parseWith step dir = (c.parseWith 3 dir).widen step := by
  cases dir with
  | forward => exact parseForward_widen h c
  | backward => exact parseBackward_widen h c

end Cursor

/-! ## Texts -/

/-- With any two steps that are greater than every offset, a text has the same tokens but for their
priorities, in the same order, or it is malformed for the same reason at the same column. -/
theorem parseWith_steps {m n : Int} (hm : 2 < m) (hn : 2 < n) (dir : Direction) (t : Text) :
    (∃ ts us, ((Cursor.whole t dir).parseWith m dir).1 = .ok ts ∧
        ((Cursor.whole t dir).parseWith n dir).1 = .ok us ∧
        ts.map Token.bare = us.map Token.bare) ∨
      ∃ reason column,
        ((Cursor.whole t dir).parseWith m dir).1 = .error (.malformed reason column) ∧
        ((Cursor.whole t dir).parseWith n dir).1 = .error (.malformed reason column) := by
  have himage {step : Int} (h : 2 < step) : ((Cursor.whole t dir).parseWith step dir).1 =
      ((Cursor.whole t dir).parseWith 3 dir).1.map (List.map (Token.widen step)) :=
    congrArg Prod.fst (Cursor.parseWith_eq_widen h dir (Cursor.whole t dir))
  have hbare (step : Int) (ts : List Token) :
      (ts.map (Token.widen step)).map Token.bare = ts.map Token.bare := by
    simp
  rw [himage hm, himage hn]
  cases hparse : ((Cursor.whole t dir).parseWith 3 dir).1 with
  | ok ts =>
    exact .inl ⟨_, _, rfl, rfl, (hbare m ts).trans (hbare n ts).symm⟩
  | error f =>
    -- With the standard step there is the same fault, so the text is malformed.
    have hstandard : parse dir t = .error f := by
      rw [parse, Cursor.parse, himage (by decide), hparse]
      rfl
    obtain ⟨column, ⟨reason, rfl⟩, -⟩ := showsIn_of_parse f hstandard
    exact .inr ⟨reason, column, rfl, rfl⟩

/-- With the least step, the inner operator of `1/(2+3)` has the priority three and is found before
the outer one; with the step thousand it is found there, too. -/
theorem parseWith_steps_quotient :
    ∃ x y z us, ((Cursor.whole ['1', '/', '(', '2', '+', '3', ')'] .forward).parseWith 3
        .forward).1 = .ok [.number x 0, .number y 0, .number z 0, .binary .plus 3,
          .binary .divide 2] ∧
      ((Cursor.whole ['1', '/', '(', '2', '+', '3', ')'] .forward).parseWith 1000 .forward).1 =
        .ok us ∧
      us.map Token.bare = [.number x 0, .number y 0, .number z 0, .binary .plus 0,
        .binary .divide 0] := by
  let t : Text := ['1', '/', '(', '2', '+', '3', ')']
  obtain ⟨x, y, z, hthree⟩ : ∃ x y z, ((Cursor.whole t .forward).parseWith 3 .forward).1 =
      .ok [.number x 0, .number y 0, .number z 0, .binary .plus 3, .binary .divide 2] :=
    ⟨_, _, _, rfl⟩
  obtain ⟨ts, us, hts, hus, hbare⟩ | ⟨_, _, hfault, -⟩ :=
    parseWith_steps (m := 3) (n := 1000) (by decide) (by decide) .forward t
  · obtain rfl := Except.ok.inj (hthree.symm.trans hts)
    exact ⟨x, y, z, us, hthree, hus, hbare.symm⟩
  · cases hthree.symm.trans hfault

end Reckoner
