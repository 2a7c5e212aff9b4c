import Mathlib.Tactic.Convert
import Mathlib.Tactic.SplitIfs
import Reckoner.Reading.Progress

/-!
# What a reader does with a lexeme

`Progress.Takes` says once for both directions what has to be open for a lexeme and what the reader
holds after it.  It is tied to the two reading functions by `readForward_eq_ok_iff` and
`readBackward_eq_ok_some_iff`, so that nothing that follows has to open them.
-/

namespace Reckoner

namespace Expectation

/-! ## The slots that a category asks for -/

variable (e : Expectation) (dir : Direction)

@[simp] lemma meets_number : e.meets (.required dir .number) = e.number := by
  cases dir <;> simp [meets, required, nothing]

@[simp] lemma meets_sign : e.meets (.required dir .sign) = e.sign := by
  cases dir <;> simp [meets, required, nothing]

@[simp] lemma meets_operator : e.meets (.required dir .operator) = e.operator := by
  cases dir <;> simp [meets, required, nothing]

@[simp] lemma meets_opening_forward : e.meets (.required .forward .opening) = e.opening := by
  simp [meets, required, nothing]

@[simp] lemma meets_closing_forward :
    e.meets (.required .forward .closing) = (e.closing || e.emptyGroup) := by
  simp [meets, required, nothing]

@[simp] lemma meets_opening_backward :
    e.meets (.required .backward .opening) = (e.opening || e.emptyGroup) := by
  simp [meets, required, nothing]

@[simp] lemma meets_closing_backward : e.meets (.required .backward .closing) = e.closing := by
  simp [meets, required, nothing]

/-! ## The slots that are open behind a category -/

/-- At the beginning the same slots are open as behind a binary operator. -/
lemma start_eq : start dir = following dir .operator := by cases dir <;> rfl

/-- A number may stand exactly where no operator may. -/
lemma number_following (cat : Category) :
    (following dir cat).number = !(following dir cat).operator := by
  cases dir <;> cases cat <;> rfl

/-- From the left a group may end exactly where an operator may stand. -/
lemma closing_following_forward (cat : Category) :
    (following .forward cat).closing = (following .forward cat).operator := by
  cases cat <;> rfl

/-- From the right a group may begin exactly where an operator may stand. -/
lemma opening_following_backward (cat : Category) :
    (following .backward cat).opening = (following .backward cat).operator := by
  cases cat <;> rfl

/-- From the right a group may end exactly where no operator may stand. -/
lemma closing_following_backward (cat : Category) :
    (following .backward cat).closing = !(following .backward cat).operator := by
  cases cat <;> rfl

/-- From the left a sign may stand exactly where no operator may. -/
lemma sign_following_forward (cat : Category) :
    (following .forward cat).sign = !(following .forward cat).operator := by
  cases cat <;> rfl

/-- From the right a sign may stand exactly where an operator may. -/
lemma sign_following_backward (cat : Category) :
    (following .backward cat).sign = (following .backward cat).operator := by
  cases cat <;> rfl

/-- From the left, a group may begin where an operator may stand only behind another group. -/
lemma eq_closing_of_operator_of_opening {cat : Category}
    (hoperator : (following .forward cat).operator) (hopening : (following .forward cat).opening) :
    cat = .closing := by
  cases cat <;> first | rfl | exact absurd hoperator (by decide) | exact absurd hopening (by decide)

/-- No operator may stand where a group may be empty. -/
lemma operator_eq_false_of_emptyGroup {dir : Direction} {cat : Category}
    (h : (following dir cat).emptyGroup) : (following dir cat).operator = false := by
  cases dir <;> cases cat <;> first | rfl | exact absurd h (by decide)

end Expectation

namespace Direction

/-- The category of the parenthesis that leads into a group. -/
def entry : Direction → Category
  | forward => .opening
  | backward => .closing

/-- The category of the parenthesis that leads out of a group. -/
def exit : Direction → Category
  | forward => .closing
  | backward => .opening

@[simp] lemma entry_forward : entry forward = .opening := rfl

@[simp] lemma entry_backward : entry backward = .closing := rfl

@[simp] lemma exit_forward : exit forward = .closing := rfl

@[simp] lemma exit_backward : exit backward = .opening := rfl

/-- The parenthesis that leads into a group. -/
def entrySymbol : Direction → Operator
  | forward => .leftParenthesis
  | backward => .rightParenthesis

/-- The parenthesis that leads out of a group. -/
def exitSymbol : Direction → Operator
  | forward => .rightParenthesis
  | backward => .leftParenthesis

/-- May a plus or minus be a sign in front of the lexemes that come next in reading order?  From
the left the expectation alone tells. -/
def admitSign : Direction → List Lexeme → Bool
  | forward, _ => true
  | backward, left => Lexeme.admitSign left

end Direction

namespace Progress

/-- A visible lexeme as a category: the slots that are open before it, what is read, and the reader
after it.  A plus or minus is a sign if it is `signed` and a sign may stand here. -/
inductive Takes (step : Int) (dir : Direction) (signed : Bool) :
    Progress → Lexeme → Category → Progress → Prop
  | number {p : Progress} {t : Text} {k : Token}
      (h : p.expected.meets (.required dir .number)) (hk : Token.ofNumeral t = .ok k) :
      Takes step dir signed p (.numeral t) .number
        ⟨.following dir .number, p.depth, k :: p.tokens⟩
  | sign {p : Progress} {op : Operator} (h : p.expected.meets (.required dir .sign))
      (hop : op.isSign) (hsigned : signed) :
      Takes step dir signed p (.symbol op) .sign
        (pushSign step ⟨.following dir .sign, p.depth, p.tokens⟩ op)
  | operator {p : Progress} {op : Operator} (h : p.expected.meets (.required dir .operator))
      (hop : op.isArithmetic)
      (hsign : op.isSign → signed → p.expected.meets (.required dir .sign) = false) :
      Takes step dir signed p (.symbol op) .operator
        (pushBinary step ⟨.following dir .operator, p.depth, p.tokens⟩ op)
  | enter {p : Progress} (h : p.expected.meets (.required dir dir.entry)) :
      Takes step dir signed p (.symbol dir.entrySymbol) dir.entry
        ⟨.following dir dir.entry, p.depth + 1, p.tokens⟩
  | leave {p : Progress} {depth : Nat} (h : p.expected.meets (.required dir dir.exit))
      (hdepth : p.depth = depth + 1) :
      Takes step dir signed p (.symbol dir.exitSymbol) dir.exit
        (pushEmpty ⟨.following dir dir.exit, depth, p.tokens⟩ p.expected.emptyGroup)

variable {step column : Int} {dir : Direction} {signed : Bool} {p q : Progress} {cat : Category}

@[simp] lemma pushSign_expected (op : Operator) : (pushSign step p op).expected = p.expected := by
  unfold pushSign
  split <;> rfl

@[simp] lemma pushSign_depth (op : Operator) : (pushSign step p op).depth = p.depth := by
  unfold pushSign
  split <;> rfl

@[simp] lemma pushSign_tokens (op : Operator) : (pushSign step p op).tokens =
    (if op = .minus then [.unaryAt (p.base step) op] else []) ++ p.tokens := by
  unfold pushSign
  split <;> rfl

@[simp] lemma pushEmpty_expected (here : Bool) : (pushEmpty p here).expected = p.expected := by
  cases here <;> rfl

@[simp] lemma pushEmpty_depth (here : Bool) : (pushEmpty p here).depth = p.depth := by
  cases here <;> rfl

@[simp] lemma pushEmpty_tokens (here : Bool) :
    (pushEmpty p here).tokens = (if here then [.emptyGroup] else []) ++ p.tokens := by
  cases here <;> rfl

namespace Takes

variable {l : Lexeme}

/-- What is taken decides what may come next. -/
lemma expected_eq (h : Takes step dir signed p l cat q) : q.expected = .following dir cat := by
  cases h <;> simp [pushBinary, push]

/-- Foreign characters are not taken. -/
lemma ne_foreign (h : Takes step dir signed p l cat q) (c : Char) : l ≠ .foreign c := by
  cases h <;> simp

/-- What is taken does not depend on the tokens so far, and adds to them. -/
lemma frame (h : Takes step dir signed p l cat q) : ∃ new, q.tokens = new ++ p.tokens ∧
    ∀ ts, Takes step dir signed { p with tokens := ts } l cat { q with tokens := new ++ ts } := by
  cases h with
  | number h hk => exact ⟨[_], rfl, fun _ => .number h hk⟩
  | @sign op h hop hsigned =>
    refine ⟨_, pushSign_tokens op, fun ts => ?_⟩
    have hsign : Takes step dir signed { p with tokens := ts } (.symbol op) .sign _ :=
      .sign h hop hsigned
    convert hsign using 1
    unfold pushSign
    split <;> rfl
  | operator h hop hsign => exact ⟨[_], rfl, fun _ => .operator h hop hsign⟩
  | enter h => exact ⟨[], rfl, fun _ => .enter h⟩
  | @leave depth h hdepth =>
    refine ⟨_, pushEmpty_tokens _, fun ts => ?_⟩
    have hleave : Takes step dir signed { p with tokens := ts } (.symbol dir.exitSymbol) dir.exit
        _ := .leave h hdepth
    convert hleave using 1
    cases p.expected.emptyGroup <;> rfl

/-! ### Parentheses in each direction -/

lemma opening_forward (h : p.expected.opening) :
    Takes step .forward signed p (.symbol .leftParenthesis) .opening
      ⟨.following .forward .opening, p.depth + 1, p.tokens⟩ := by
  have hmeets : p.expected.meets (.required .forward Direction.forward.entry) := by
    simpa using h
  exact .enter hmeets

lemma closing_forward {depth : Nat} (h : p.expected.closing || p.expected.emptyGroup)
    (hdepth : p.depth = depth + 1) :
    Takes step .forward signed p (.symbol .rightParenthesis) .closing
      (pushEmpty ⟨.following .forward .closing, depth, p.tokens⟩ p.expected.emptyGroup) := by
  have hmeets : p.expected.meets (.required .forward Direction.forward.exit) := by
    simpa using h
  exact .leave hmeets hdepth

lemma closing_backward (h : p.expected.closing) :
    Takes step .backward signed p (.symbol .rightParenthesis) .closing
      ⟨.following .backward .closing, p.depth + 1, p.tokens⟩ := by
  have hmeets : p.expected.meets (.required .backward Direction.backward.entry) := by
    simpa using h
  exact .enter hmeets

lemma opening_backward {depth : Nat} (h : p.expected.opening || p.expected.emptyGroup)
    (hdepth : p.depth = depth + 1) :
    Takes step .backward signed p (.symbol .leftParenthesis) .opening
      (pushEmpty ⟨.following .backward .opening, depth, p.tokens⟩ p.expected.emptyGroup) := by
  have hmeets : p.expected.meets (.required .backward Direction.backward.exit) := by
    simpa using h
  exact .leave hmeets hdepth

end Takes

/-! ## The reading functions -/

/-- A category is accepted if one of its slots is open, and the reader goes on from there. -/
lemma accept_map_eq_some_iff {f : Progress → Progress} : (p.accept dir cat).map f = some q ↔
    p.expected.meets (.required dir cat) ∧ q = f ⟨.following dir cat, p.depth, p.tokens⟩ := by
  cases h : p.expected.meets (.required dir cat) with
  | false => simp [accept, Expectation.after?, h]
  | true => simpa [accept, Expectation.after?, h] using eq_comm

/-- A category is accepted if one of its slots is open. -/
lemma accept_eq_some_iff : p.accept dir cat = some q ↔
    p.expected.meets (.required dir cat) ∧ q = ⟨.following dir cat, p.depth, p.tokens⟩ := by
  simpa using accept_map_eq_some_iff (f := id)

/-- A category is not accepted if none of its slots is open. -/
lemma accept_eq_none_iff :
    p.accept dir cat = none ↔ p.expected.meets (.required dir cat) = false := by
  cases h : p.expected.meets (.required dir cat) <;> simp [accept, Expectation.after?, h]

/-- A sign is accepted if the symbol can be one, may be one here, and a sign is expected. -/
lemma accept_sign (signed : Bool) (p : Progress) (dir : Direction) (op : Operator) :
    (if op.isSign && signed then p.accept dir .sign else none) =
      if op.isSign ∧ signed ∧ p.expected.meets (.required dir .sign) then
        some ⟨.following dir .sign, p.depth, p.tokens⟩
      else none := by
  cases op.isSign <;> cases signed <;> simp [accept, Expectation.after?, apply_ite]

/-- A required category is accepted. -/
lemma require_eq_ok_iff {reason : Reason} : p.require dir cat reason column = .ok q ↔
    p.expected.meets (.required dir cat) ∧ q = ⟨.following dir cat, p.depth, p.tokens⟩ := by
  rw [← accept_eq_some_iff, require]
  split <;> simp_all

/-- The bind of two computations succeeds if both succeed, one after the other. -/
lemma bind_eq_ok_iff {ε α β : Type} {x : Except ε α} {f : α → Except ε β} {b : β} :
    x >>= f = .ok b ↔ ∃ a, x = .ok a ∧ f a = .ok b := by
  cases x <;> simp [bind, Except.bind]

/-- The bind of two computations fails if the first one does, or else the second one. -/
lemma bind_eq_error_iff {ε α β : Type} {x : Except ε α} {k : α → Except ε β} {f : ε} :
    x >>= k = .error f ↔ x = .error f ∨ ∃ a, x = .ok a ∧ k a = .error f := by
  cases x <;> simp [bind, Except.bind]

/-- A required category is accepted, and the reader after it goes on from there. -/
lemma require_bind_eq_ok_iff {reason : Reason} {f : Progress → Progress} :
    (do let q ← p.require dir cat reason column; return f q) = Except.ok q ↔
      p.expected.meets (.required dir cat) ∧ q = f ⟨.following dir cat, p.depth, p.tokens⟩ := by
  simp only [bind_eq_ok_iff, require_eq_ok_iff]
  constructor
  · rintro ⟨_, ⟨h, rfl⟩, hq⟩
    exact ⟨h, (Except.ok.inj hq).symm⟩
  · rintro ⟨h, rfl⟩
    exact ⟨_, ⟨h, rfl⟩, rfl⟩

/-- A numeral is read where a number may stand. -/
lemma readNumber_eq_ok_iff {t : Text} : p.readNumber dir column t = .ok q ↔
    p.expected.meets (.required dir .number) ∧ ∃ k, Token.ofNumeral t = .ok k ∧
      q = ⟨.following dir .number, p.depth, k :: p.tokens⟩ := by
  simp only [readNumber, bind_eq_ok_iff, require_eq_ok_iff]
  constructor
  · rintro ⟨_, ⟨h, rfl⟩, k, hk, hq⟩
    exact ⟨h, k, hk, (Except.ok.inj hq).symm⟩
  · rintro ⟨h, k, hk, rfl⟩
    exact ⟨_, ⟨h, rfl⟩, k, hk, rfl⟩

/-- What is read from the left of an arithmetic symbol. -/
lemma readForward_symbol {op : Operator} (hop : op.isArithmetic) :
    p.readForward step column (.symbol op) =
      match if op.isSign then p.accept .forward .sign else none with
      | some q => .ok (q.pushSign step op)
      | none => do
        let q ← p.require .forward .operator .unexpectedOperator column
        return q.pushBinary step op := by
  cases op <;> first | rfl | exact absurd hop (by decide)

/-- What is read from the right of an arithmetic symbol. -/
lemma readBackward_symbol {op : Operator} (hop : op.isArithmetic) (left : List Lexeme) :
    p.readBackward step column left (.symbol op) =
      match if op.isSign && Lexeme.admitSign left then p.accept .backward .sign else none with
      | some q => .ok (some (q.pushSign step op))
      | none => .ok ((p.accept .backward .operator).map fun q => q.pushBinary step op) := by
  cases op <;> first | rfl | exact absurd hop (by decide)

/-- What is read from the left of a closing parenthesis. -/
lemma readForward_exit : p.readForward step column (.symbol Direction.forward.exitSymbol) =
    match p.depth with
    | 0 => .error (.malformed .unmatchedParentheses column)
    | depth + 1 => do
      let q ← p.require .forward .closing .unexpectedClosing column
      return { q with depth := depth }.pushEmpty p.expected.emptyGroup := rfl

/-- What is read from the right of a closing parenthesis. -/
lemma readBackward_entry (left : List Lexeme) :
    p.readBackward step column left (.symbol Direction.backward.entrySymbol) =
      .ok ((p.accept .backward .closing).map fun q => { q with depth := p.depth + 1 }) := rfl

/-- What is read from the right of an opening parenthesis. -/
lemma readBackward_exit (left : List Lexeme) :
    p.readBackward step column left (.symbol Direction.backward.exitSymbol) =
      match p.accept .backward .opening with
      | none => .ok none
      | some q =>
        match p.depth with
        | 0 => .error (.malformed .unmatchedParentheses column)
        | depth + 1 => .ok (some ({ q with depth := depth }.pushEmpty p.expected.emptyGroup)) := rfl

/-! ## Which lexemes are taken -/

/-- A numeral is taken where a number may stand. -/
lemma takes_numeral_iff {t : Text} : (∃ cat, Takes step dir signed p (.numeral t) cat q) ↔
    p.expected.meets (.required dir .number) ∧ ∃ k, Token.ofNumeral t = .ok k ∧
      q = ⟨.following dir .number, p.depth, k :: p.tokens⟩ := by
  constructor
  · rintro ⟨_, h⟩
    cases h with
    | number h hk => exact ⟨h, _, hk, rfl⟩
  · rintro ⟨h, k, hk, rfl⟩
    exact ⟨_, .number h hk⟩

/-- An arithmetic symbol is taken as a sign where it can be one, and else where an operator may
stand. -/
lemma takes_arithmetic_iff {op : Operator} (hop : op.isArithmetic) :
    (∃ cat, Takes step dir signed p (.symbol op) cat q) ↔
      if op.isSign ∧ signed ∧ p.expected.meets (.required dir .sign) then
        q = pushSign step ⟨.following dir .sign, p.depth, p.tokens⟩ op
      else p.expected.meets (.required dir .operator) ∧
        q = pushBinary step ⟨.following dir .operator, p.depth, p.tokens⟩ op := by
  constructor
  · rintro ⟨_, h⟩
    cases h with
    | sign h hsign hsigned => rw [if_pos ⟨hsign, hsigned, h⟩]
    | operator h _ hsign =>
      rw [if_neg (by rintro ⟨hs, hsigned, hmeets⟩; simp [hsign hs hsigned] at hmeets)]
      exact ⟨h, rfl⟩
    | enter | leave => cases dir <;> exact absurd hop (by decide)
  · split
    · rename_i h
      rintro rfl
      exact ⟨_, .sign h.2.2 h.1 h.2.1⟩
    · rename_i h
      rintro ⟨hmeets, rfl⟩
      refine ⟨_, .operator hmeets hop fun hs hsigned => ?_⟩
      simpa [hs, hsigned] using h

/-- The parenthesis that leads into a group is taken where a group may begin in this direction. -/
lemma takes_entry_iff : (∃ cat, Takes step dir signed p (.symbol dir.entrySymbol) cat q) ↔
    p.expected.meets (.required dir dir.entry) ∧
      q = ⟨.following dir dir.entry, p.depth + 1, p.tokens⟩ := by
  constructor
  · rintro ⟨_, h⟩
    generalize hl : Lexeme.symbol dir.entrySymbol = l at h
    cases h with
    | number => cases hl
    | sign _ hop | operator _ hop =>
      obtain rfl := Lexeme.symbol.inj hl
      cases dir <;> exact absurd hop (by decide)
    | enter h => exact ⟨h, rfl⟩
    | leave => cases dir <;> exact absurd hl (by decide)
  · rintro ⟨h, rfl⟩
    exact ⟨_, .enter h⟩

/-- The parenthesis that leads out of a group is taken where the group may end. -/
lemma takes_exit_iff : (∃ cat, Takes step dir signed p (.symbol dir.exitSymbol) cat q) ↔
    p.expected.meets (.required dir dir.exit) ∧ ∃ depth, p.depth = depth + 1 ∧
      q = pushEmpty ⟨.following dir dir.exit, depth, p.tokens⟩ p.expected.emptyGroup := by
  constructor
  · rintro ⟨_, h⟩
    generalize hl : Lexeme.symbol dir.exitSymbol = l at h
    cases h with
    | number => cases hl
    | sign _ hop | operator _ hop =>
      obtain rfl := Lexeme.symbol.inj hl
      cases dir <;> exact absurd hop (by decide)
    | enter => cases dir <;> exact absurd hl (by decide)
    | leave h hdepth => exact ⟨h, _, hdepth, rfl⟩
  · rintro ⟨h, depth, hdepth, rfl⟩
    exact ⟨_, .leave h hdepth⟩

/-- White and foreign characters are not taken. -/
lemma not_takes {l : Lexeme} (hl : l.isNumeral = false) (hop : ∀ op, l ≠ .symbol op) :
    ¬ ∃ cat, Takes step dir signed p l cat q := by
  rintro ⟨_, h⟩
  cases h with
  | number => simp [Lexeme.isNumeral] at hl
  | sign | operator | enter | leave => exact hop _ rfl

/-- A symbol is arithmetic or a parenthesis that leads into or out of a group. -/
lemma arithmetic_or_parenthesis (dir : Direction) (op : Operator) :
    op.isArithmetic ∨ op = dir.entrySymbol ∨ op = dir.exitSymbol := by
  cases dir <;> cases op <;> decide

/-- From the left, what is taken is read, and nothing else but white characters is. -/
theorem readForward_eq_ok_iff {l : Lexeme} (hl : l.isWhite = false) (column : Int) :
    p.readForward step column l = .ok q ↔ ∃ cat, Takes step .forward true p l cat q := by
  cases l with
  | white => simp [Lexeme.isWhite] at hl
  | foreign c =>
    refine iff_of_false ?_ (not_takes rfl (by simp))
    rintro ⟨⟩
  | numeral t => rw [takes_numeral_iff, readForward, readNumber_eq_ok_iff]
  | symbol op =>
    rcases arithmetic_or_parenthesis .forward op with hop | rfl | rfl
    · have hsign := accept_sign true p .forward op
      rw [Bool.and_true] at hsign
      rw [takes_arithmetic_iff hop, readForward_symbol hop, hsign]
      split_ifs
      · simp [eq_comm]
      · exact require_bind_eq_ok_iff
    · rw [takes_entry_iff]
      exact require_bind_eq_ok_iff (f := fun q => { q with depth := p.depth + 1 })
    · rw [takes_exit_iff, readForward_exit]
      cases hdepth : p.depth with
      | zero => simp
      | succ depth =>
        simp only [Nat.add_right_cancel_iff, exists_eq_left']
        exact require_bind_eq_ok_iff
          (f := fun q => { q with depth := depth }.pushEmpty p.expected.emptyGroup)

/-- From the right, what is taken is read, and nothing else but white characters is. -/
theorem readBackward_eq_ok_some_iff {l : Lexeme} (hl : l.isWhite = false) (column : Int)
    (left : List Lexeme) :
    p.readBackward step column left l = .ok (some q) ↔
      ∃ cat, Takes step .backward (Lexeme.admitSign left) p l cat q := by
  cases l with
  | white => simp [Lexeme.isWhite] at hl
  | foreign c =>
    refine iff_of_false ?_ (not_takes rfl (by simp))
    rintro ⟨⟩
  | numeral t =>
    have hnumber : p.readNumber .backward column t = .ok q ↔ _ := readNumber_eq_ok_iff
    rw [takes_numeral_iff, ← hnumber, readBackward]
    cases p.readNumber .backward column t <;> simp [Functor.map, Except.map]
  | symbol op =>
    rcases arithmetic_or_parenthesis .backward op with hop | rfl | rfl
    · rw [takes_arithmetic_iff hop, readBackward_symbol hop, accept_sign]
      split_ifs
      · simp [eq_comm]
      · rw [Except.ok.injEq, accept_map_eq_some_iff]
    · rw [takes_entry_iff]
      refine (iff_of_eq (Except.ok.injEq _ _)).trans ?_
      exact accept_map_eq_some_iff (f := fun q => { q with depth := p.depth + 1 })
    · rw [takes_exit_iff, readBackward_exit]
      cases haccept : p.accept .backward .opening with
      | none => simp [Direction.exit, accept_eq_none_iff.mp haccept]
      | some r =>
        obtain ⟨hmeets, rfl⟩ := accept_eq_some_iff.mp haccept
        cases hdepth : p.depth with
        | zero => simp
        | succ depth => simpa [Direction.exit, hmeets] using eq_comm

end Progress

end Reckoner
