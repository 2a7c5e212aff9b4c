import Reckoner.Cursor.Evaluate
import Reckoner.Proofs.Ordering
import Reckoner.Proofs.Reading.Run

/-!
# Parsed tokens can be evaluated

A list of tokens that has been parsed has a value, unless it has an empty group, and then it is the
empty group that stops the evaluation (`Cursor.evaluate_of_parse`).  Parsing itself only counts
tokens; that every operator also finds its operands comes from the open slots.

`Token.tally` follows the number of operands along a list.  In an infix list a token must find the
operands on its left (`Token.lefts`), in evaluation order all of its operands (`Token.arity`).  The
reader keeps the tally of the infix list: from the left one operand for each place where two
operands meet, and one more behind an operand (`Progress.Takes.tally_forward`); from the right one
in all, once the operand that is still to come on the left is counted
(`Progress.Takes.tally_backward`).  Arranging by priorities then keeps every operator behind its
operands (`Token.tally_arrange`), whatever the priorities are.
-/

namespace Reckoner

namespace Token

/-! ## Counting operands -/

/-- The operands that a token takes from its left in an infix list. -/
def lefts (t : Token) : Nat := t.arity - 1

/-- The number of operands that are there behind a list of tokens, if there are `n` before it and
every token finds as many as it needs.  A token takes operands away and leaves one. -/
def tally (need : Token → Nat) : Nat → List Token → Option Nat
  | n, [] => some n
  | n, t :: ts => if need t ≤ n then tally need (n + 1 - t.arity) ts else none

variable {need : Token → Nat} {m n : Nat} {t : Token} {ts us : List Token}

/-- The first token finds what it needs, and the others go on with what it leaves. -/
lemma tally_cons_eq_some : tally need n (t :: ts) = some m ↔
    need t ≤ n ∧ tally need (n + 1 - t.arity) ts = some m := by
  rw [tally]
  split <;> simp_all

/-- A list of tokens goes on with what another one leaves. -/
lemma tally_append (h : tally need n ts = some m) :
    tally need n (ts ++ us) = tally need m us := by
  induction ts generalizing n with
  | nil =>
    obtain rfl := Option.some.inj h
    rfl
  | cons t ts ih =>
    obtain ⟨hneed, hrest⟩ := tally_cons_eq_some.mp h
    rw [List.cons_append, tally, if_pos hneed, ih hrest]

/-- What is there at the beginning and the number of tokens tell what is there at the end. -/
lemma consumed_add (h : tally lefts n ts = some m) : consumed ts + m = n + ts.length := by
  induction ts generalizing n with
  | nil =>
    obtain rfl := Option.some.inj h
    simp [consumed]
  | cons t ts ih =>
    obtain ⟨hneed, hrest⟩ := tally_cons_eq_some.mp h
    have hsum := ih hrest
    simp only [lefts] at hneed
    simp only [consumed_cons, List.length_cons]
    omega

/-- A balanced list leaves one operand. -/
lemma eq_one_of_balanced (h : tally lefts 0 ts = some m) (hts : balanced ts) : m = 1 := by
  have hsum := consumed_add h
  have hcount := eq_of_beq hts
  omega

/-! ## Arranging keeps operators behind their operands -/

/-- The operands that the waiting operators have taken from their left. -/
def held : List Token → Nat
  | [] => 0
  | o :: waiting => o.lefts + held waiting

lemma held_cons (o : Token) (waiting : List Token) :
    held (o :: waiting) = o.lefts + held waiting := rfl

lemma held_append (ts us : List Token) : held (ts ++ us) = held ts + held us := by
  induction ts with
  | nil => simp [held]
  | cons t ts ih => rw [List.cons_append, held_cons, held_cons, ih, Nat.add_assoc]

/-- Operators that are released one after the other find their operands if there is one on the
right of them all. -/
lemma tally_release (hops : ∀ o ∈ ts, o.isOperator) (hn : 0 < n) :
    tally arity (n + held ts) ts = some n := by
  induction ts with
  | nil => rfl
  | cons t ts ih =>
    have harity : t.arity ≠ 0 := by simpa [isOperator] using hops t (by simp)
    have hrest := ih fun o ho => hops o (List.mem_cons_of_mem t ho)
    have hheld : n + held (t :: ts) + 1 - t.arity = n + held ts := by
      rw [held_cons, lefts]
      omega
    refine tally_cons_eq_some.mpr ⟨?_, by rwa [hheld]⟩
    rw [held_cons, lefts]
    omega

/-- If the tally of an infix list comes to one operand, so does that of its arrangement, in which
every operator finds all of its operands. -/
theorem tally_arrange {waiting : List Token} (hops : ∀ o ∈ waiting, o.isOperator)
    (h : tally lefts n ts = some 1) :
    tally arity (n + held waiting) (arrange waiting ts) = some 1 := by
  induction ts generalizing n waiting with
  | nil =>
    obtain rfl := Option.some.inj h
    exact tally_release hops Nat.one_pos
  | cons t ts ih =>
    obtain ⟨hneed, hrest⟩ := tally_cons_eq_some.mp h
    cases t with
    | number v p | empty tag p =>
      rw [arrange_operand rfl, tally_cons_eq_some]
      have hothers : tally arity (n + 1 + held waiting) (arrange waiting ts) = some 1 :=
        ih hops hrest
      rw [Nat.add_right_comm] at hothers
      exact ⟨Nat.zero_le _, hothers⟩
    | unary op p =>
      rw [arrange_unary]
      have hwait : ∀ o ∈ unary op p :: waiting, o.isOperator :=
        List.forall_mem_cons.mpr ⟨rfl, hops⟩
      simpa [held_cons, lefts, arity] using ih hwait hrest
    | binary op p =>
      -- The operators that bind at least as tightly find the operand that has just been read.
      have hparts := List.takeWhile_append_dropWhile (p := fun o => decide (p ≤ priority o))
        (l := waiting)
      rw [arrange_binary]
      generalize waiting.takeWhile (p ≤ ·.priority) = released at hparts ⊢
      generalize waiting.dropWhile (p ≤ ·.priority) = kept at hparts ⊢
      subst hparts
      obtain ⟨hreleased, hkept⟩ := List.forall_mem_append.mp hops
      have hwait : ∀ o ∈ binary op p :: kept, o.isOperator :=
        List.forall_mem_cons.mpr ⟨rfl, hkept⟩
      simp only [lefts, arity] at hneed hrest
      have hsome : 0 < n + held kept := Nat.lt_of_lt_of_le hneed (Nat.le_add_right n _)
      have hrelease := tally_release hreleased hsome
      have hshift : n + held (released ++ kept) = n + held kept + held released := by
        rw [held_append]
        omega
      have hhold : n + 1 - 2 + held (binary op p :: kept) = n + held kept := by
        rw [held_cons, lefts, arity]
        omega
      rw [hshift, tally_append hrelease, ← hhold]
      exact ih hwait hrest

/-! ## Evaluating -/

/-- The tokens that an expression leaves: numbers, markers of empty groups, signs in front of an
operand and arithmetic operators between two. -/
def IsSound : Token → Prop
  | number _ _ => True
  | unary op _ => op.isSign
  | binary op _ => op.isArithmetic
  | empty tag p => empty tag p = emptyGroup

/-- Signs have a meaning in front of an operand. -/
lemma exists_unary?_eq_some {op : Operator} (h : op.isSign) : ∃ f, op.unary? = some f := by
  cases op <;> first | exact ⟨_, rfl⟩ | exact absurd h (by decide)

/-- Arithmetic operators have a meaning between operands. -/
lemma exists_binary?_eq_some {op : Operator} (h : op.isArithmetic) :
    ∃ f, op.binary? = some f := by
  cases op <;> first | exact ⟨_, rfl⟩ | exact absurd h (by decide)

/-- A token that finds its operands leaves one value for them, unless it is the marker of an empty
group. -/
lemma act_eq_ok {stack : List Float} (ht : t.IsSound) (hne : t ≠ emptyGroup)
    (hneed : t.arity ≤ stack.length) :
    ∃ stack', t.act stack = .ok stack' ∧ stack'.length = stack.length + 1 - t.arity := by
  cases t with
  | number v p => exact ⟨_, rfl, by simp [arity]⟩
  | empty tag p => exact absurd ht hne
  | unary op p =>
    obtain ⟨f, hf⟩ := exists_unary?_eq_some ht
    obtain ⟨x, rest, rfl⟩ := List.exists_cons_of_length_pos hneed
    exact ⟨f x :: rest, by simp [act, hf], by simp [arity]⟩
  | binary op p =>
    obtain ⟨f, hf⟩ := exists_binary?_eq_some ht
    obtain ⟨y, rest, rfl⟩ := List.exists_cons_of_length_pos (Nat.lt_of_succ_lt hneed)
    obtain ⟨x, rest, rfl⟩ := List.exists_cons_of_length_pos (Nat.lt_of_succ_lt_succ hneed)
    exact ⟨f x y :: rest, by simp [act, hf], by simp [arity]⟩

/-- Where all operands are found, only an empty group stops the evaluation. -/
theorem run_of_tally {stack : List Float} (h : tally arity stack.length ts = some m)
    (hts : ∀ t ∈ ts, t.IsSound) :
    (emptyGroup ∉ ts → ∃ stack', run stack ts = .ok stack' ∧ stack'.length = m) ∧
      (emptyGroup ∈ ts → run stack ts = .error (.emptyGroup emptyGroup)) := by
  induction ts generalizing stack with
  | nil =>
    obtain rfl := Option.some.inj h
    exact ⟨fun _ => ⟨stack, rfl, rfl⟩, by simp⟩
  | cons t ts ih =>
    obtain ⟨hneed, hrest⟩ := tally_cons_eq_some.mp h
    obtain ⟨ht, hothers⟩ := List.forall_mem_cons.mp hts
    by_cases hempty : t = emptyGroup
    · subst hempty
      exact ⟨by simp, fun _ => rfl⟩
    · obtain ⟨stack', hact, hlength⟩ := act_eq_ok ht hempty hneed
      rw [← hlength] at hrest
      obtain ⟨hvalue, hstop⟩ := ih hrest hothers
      have hrun : run stack (t :: ts) = run stack' ts := by
        rw [run, hact]
        rfl
      rw [hrun]
      constructor
      · intro hnone
        exact hvalue (List.not_mem_of_not_mem_cons hnone)
      · intro hsome
        rcases List.mem_cons.mp hsome with hfirst | hlater
        · exact absurd hfirst.symm hempty
        · exact hstop hlater

end Token

/-! ## What a reader keeps -/

namespace Progress

open Token

variable {step : Int} {dir : Direction} {signed : Bool} {p q : Progress} {l : Lexeme}
  {cat : Category} {ls rest : List Lexeme} {j : Nat}

/-- The token of a text, if it has one, is a number token. -/
lemma exists_number_of_ofNumeral {t : Text} {k : Token} (h : Token.ofNumeral t = .ok k) :
    ∃ v, k = .number v 0 := by
  unfold Token.ofNumeral at h
  split at h
  · exact ⟨_, (Except.ok.inj h).symm⟩
  · simp at h

/-- What is taken adds sound tokens to sound ones. -/
lemma Takes.isSound (h : Takes step dir signed p l cat q) (hp : ∀ t ∈ p.tokens, t.IsSound) :
    ∀ t ∈ q.tokens, t.IsSound := by
  cases h with
  | number _ hk =>
    obtain ⟨v, rfl⟩ := exists_number_of_ofNumeral hk
    exact List.forall_mem_cons.mpr ⟨trivial, hp⟩
  | @sign op _ hop _ =>
    rw [pushSign_tokens]
    split
    · exact List.forall_mem_cons.mpr ⟨hop, hp⟩
    · exact hp
  | operator _ hop _ => exact List.forall_mem_cons.mpr ⟨hop, hp⟩
  | enter => exact hp
  | leave =>
    rw [pushEmpty_tokens]
    split
    · exact List.forall_mem_cons.mpr ⟨rfl, hp⟩
    · exact hp

/-- From the left, the tally of the tokens is one more behind an operand than before one, and one
more for each place where a parenthesis opens directly behind another operand. -/
theorem Takes.tally_forward (h : Takes step .forward signed p l cat q) {c : Category}
    (hp : p.expected = .following .forward c)
    (hj : tally lefts 0 p.tokens.reverse = some (j + p.expected.operator.toNat)) :
    tally lefts 0 q.tokens.reverse =
      some ((if cat = .opening ∧ p.expected.operator then j + 1 else j) +
        q.expected.operator.toNat) := by
  rw [hp] at hj ⊢
  cases h with
  | number h hk =>
    obtain ⟨v, rfl⟩ := exists_number_of_ofNumeral hk
    have hoperand : (Expectation.following .forward c).operator = false := by
      simpa [hp, Expectation.number_following] using h
    rw [hoperand] at hj
    rw [List.reverse_cons, tally_append hj]
    rfl
  | @sign op h _ _ =>
    have hoperand : (Expectation.following .forward c).operator = false := by
      simpa [hp, Expectation.sign_following_forward] using h
    rw [hoperand] at hj
    rw [pushSign_tokens, pushSign_expected, List.reverse_append, tally_append hj]
    split <;> rfl
  | @operator op h _ _ =>
    have hoperator : (Expectation.following .forward c).operator := by simpa [hp] using h
    rw [hoperator] at hj
    rw [pushBinary, push, List.reverse_cons, tally_append hj]
    rfl
  | enter h =>
    have hoperand : (Expectation.following .forward .opening).operator = false := rfl
    cases hoperator : (Expectation.following .forward c).operator <;>
      simpa [hoperator, hoperand] using hj
  | leave h _ =>
    rw [pushEmpty_tokens, pushEmpty_expected, List.reverse_append, tally_append hj]
    rw [hp] at h ⊢
    cases hempty : (Expectation.following .forward c).emptyGroup with
    | false =>
      have hoperator : (Expectation.following .forward c).operator := by
        simpa [hempty, Expectation.closing_following_forward] using h
      rw [hoperator]
      rfl
    | true =>
      rw [Expectation.operator_eq_false_of_emptyGroup hempty]
      rfl

/-- From the right, the tokens make up one operand, together with an operand on the left of them
where one still has to come. -/
theorem Takes.tally_backward (h : Takes step .backward signed p l cat q) {c : Category}
    (hp : p.expected = .following .backward c)
    (hone : tally lefts (!p.expected.operator).toNat p.tokens = some 1) :
    tally lefts (!q.expected.operator).toNat q.tokens = some 1 := by
  rw [hp] at hone
  cases h with
  | number h hk =>
    obtain ⟨v, rfl⟩ := exists_number_of_ofNumeral hk
    have hoperand : (Expectation.following .backward c).operator = false := by
      simpa [hp, Expectation.number_following] using h
    rw [hoperand] at hone
    exact hone
  | @sign op h _ _ =>
    have hoperator : (Expectation.following .backward c).operator := by
      simpa [hp, Expectation.sign_following_backward] using h
    rw [hoperator] at hone
    rw [pushSign_tokens, pushSign_expected]
    split <;> exact hone
  | operator h _ _ =>
    have hoperator : (Expectation.following .backward c).operator := by simpa [hp] using h
    rw [hoperator] at hone
    exact hone
  | enter h =>
    have hoperand : (Expectation.following .backward c).operator = false := by
      simpa [hp, Expectation.closing_following_backward] using h
    rw [hoperand] at hone
    exact hone
  | leave h _ =>
    rw [pushEmpty_tokens, pushEmpty_expected]
    rw [hp] at h ⊢
    cases hempty : (Expectation.following .backward c).emptyGroup with
    | false =>
      have hoperator : (Expectation.following .backward c).operator := by
        simpa [hempty, Expectation.opening_following_backward] using h
      rw [hoperator] at hone
      exact hone
    | true =>
      rw [Expectation.operator_eq_false_of_emptyGroup hempty] at hone
      exact hone

/-- A run leaves sound tokens. -/
lemma Reads.isSound (h : Reads step dir (.start dir) ls rest q) : ∀ t ∈ q.tokens, t.IsSound := by
  have hstart : ∀ t ∈ (start dir).tokens, t.IsSound := List.forall_mem_nil _
  exact h.invariant (I := fun _ p => ∀ t ∈ p.tokens, t.IsSound)
    (fun hp htakes => htakes.isSound hp) [] hstart

/-- From the left, a run leaves one operand for each place where groups have met, and one more
behind an operand. -/
lemma Reads.exists_tally_forward (h : Reads step .forward (.start .forward) ls rest q) :
    ∃ j, tally lefts 0 q.tokens.reverse = some (j + q.expected.operator.toNat) := by
  let Kept (_ : List Lexeme) (p : Progress) : Prop :=
    (∃ c, p.expected = .following .forward c) ∧
      ∃ j, tally lefts 0 p.tokens.reverse = some (j + p.expected.operator.toNat)
  have hstart : Kept [] (.start .forward) :=
    ⟨⟨.operator, Expectation.start_eq .forward⟩, 0, rfl⟩
  have hkept : Kept ls q := by
    refine h.invariant (I := Kept) ?_ [] hstart
    rintro row p signed l cat q ⟨⟨c, hc⟩, j, hj⟩ htakes
    exact ⟨⟨cat, htakes.expected_eq⟩, _, htakes.tally_forward hc hj⟩
  exact hkept.2

/-- From the right, a run leaves one operand in all, together with one that still has to come. -/
lemma Reads.tally_backward (h : Reads step .backward (.start .backward) ls rest q) :
    tally lefts (!q.expected.operator).toNat q.tokens = some 1 := by
  let Kept (_ : List Lexeme) (p : Progress) : Prop :=
    (∃ c, p.expected = .following .backward c) ∧
      tally lefts (!p.expected.operator).toNat p.tokens = some 1
  have hstart : Kept [] (.start .backward) :=
    ⟨⟨.operator, Expectation.start_eq .backward⟩, rfl⟩
  have hkept : Kept ls q := by
    refine h.invariant (I := Kept) ?_ [] hstart
    rintro row p signed l cat q ⟨⟨c, hc⟩, hone⟩ htakes
    exact ⟨⟨cat, htakes.expected_eq⟩, htakes.tally_backward hc hone⟩
  exact hkept.2

/-- From the right, a run that leaves balanced tokens ends before an operand: else an operand would
be missing on the left, and there would be too few tokens for the operators. -/
lemma Reads.operator_of_balanced (h : Reads step .backward (.start .backward) ls rest q)
    (hbalanced : balanced q.tokens) : q.expected.operator = true := by
  have hone := h.tally_backward
  by_contra hoperator
  rw [Bool.not_eq_true] at hoperator
  rw [hoperator] at hone
  have hsum : consumed q.tokens + 1 = 1 + q.tokens.length := consumed_add hone
  have hcount : consumed q.tokens + 1 = q.tokens.length := eq_of_beq hbalanced
  omega

/-- The tally of the tokens that a run leaves comes to one operand if they are balanced. -/
theorem Reads.tally_eq_one (h : Reads step dir (.start dir) ls rest q)
    (hbalanced : balanced (dir.infixOrder q.tokens)) :
    tally lefts 0 (dir.infixOrder q.tokens) = some 1 := by
  cases dir with
  | forward =>
    obtain ⟨j, hj⟩ := h.exists_tally_forward
    have hone := eq_one_of_balanced hj hbalanced
    rwa [hone] at hj
  | backward =>
    have hone := h.tally_backward
    rw [h.operator_of_balanced hbalanced] at hone
    exact hone

end Progress

/-! ## Evaluating what has been parsed -/

/-- An ordered list that leaves one operand and has only sound tokens has a value if there is no
empty group in it; else the empty group stops the evaluation. -/
lemma evaluate_of_tally {ts : List Token} (hne : ts ≠ [])
    (h : Token.tally Token.arity 0 ts = some 1) (hts : ∀ t ∈ ts, t.IsSound) :
    (Token.emptyGroup ∉ ts → ∃ v, evaluate ts = .ok (some v)) ∧
      (Token.emptyGroup ∈ ts → evaluate ts = .error (.emptyGroup .emptyGroup)) := by
  obtain ⟨t, us, rfl⟩ := List.exists_cons_of_ne_nil hne
  have hstart : Token.tally Token.arity ([] : List Float).length (t :: us) = some 1 := h
  obtain ⟨hvalue, hstop⟩ := Token.run_of_tally hstart hts
  constructor
  · intro hnone
    obtain ⟨stack, hrun, hlength⟩ := hvalue hnone
    obtain ⟨v, rfl⟩ := List.length_eq_one_iff.mp hlength
    refine ⟨v, ?_⟩
    change Token.run [] (t :: us) >>= _ = _
    rw [hrun]
    rfl
  · intro hsome
    change Token.run [] (t :: us) >>= _ = _
    rw [hstop hsome]
    rfl

namespace Cursor

/-- What the journal keeps of a parse is no error. -/
lemma level_of_mem_parseRecords {dir : Direction} {outcome : Outcome (List Token)} {r : Record}
    (hr : r ∈ parseRecords dir outcome) : r.level = .debug := by
  obtain ⟨result, c⟩ := outcome
  cases result with
  | ok ts => cases dir <;> simp_all [parseRecords]
  | error f => cases f <;> simp_all [parseRecords]

/-- Whatever has been parsed at a cursor, in either direction, has a value if there is no empty
group in it; else the empty group stops the evaluation.  The journal keeps no error. -/
theorem evaluate_of_parse {dir : Direction} {c : Cursor} {ts : List Token}
    (h : (c.parse dir).1 = .ok ts) (hne : ts ≠ []) :
    (Token.emptyGroup ∉ ts → ∃ v, Reckoner.evaluate ts = .ok (some v)) ∧
      (Token.emptyGroup ∈ ts → Reckoner.evaluate ts = .error (.emptyGroup .emptyGroup) ∧
        (NoValue.emptyGroup .emptyGroup).message = "Invalid expression") ∧
      ∀ r ∈ c.evaluateRecords dir, r.level ≠ .error := by
  obtain ⟨ls, rest, q, hreads, -, horder⟩ := exists_reads_of_parse h
  obtain ⟨hbalanced, harrange⟩ := order_eq_some_iff.mp ⟨horder, hne⟩
  have hsound := hreads.isSound
  have htally := hreads.tally_eq_one hbalanced
  have hall : ∀ t ∈ ts, t.IsSound := by
    intro t ht
    rw [← harrange, (Token.arrange_perm [] _).mem_iff] at ht
    cases dir <;> exact hsound t (by simpa [Direction.infixOrder] using ht)
  have hnone : ∀ o ∈ ([] : List Token), o.isOperator := List.forall_mem_nil _
  have hfound := Token.tally_arrange hnone htally
  rw [harrange] at hfound
  obtain ⟨hvalue, hstop⟩ := evaluate_of_tally hne hfound hall
  refine ⟨hvalue, fun hsome => ⟨hstop hsome, rfl⟩, ?_⟩
  intro r hr
  rcases List.mem_append.mp hr with hparse | hevaluate
  · have hlevel := level_of_mem_parseRecords hparse
    simp [hlevel]
  · rw [h] at hevaluate
    by_cases hempty : Token.emptyGroup ∈ ts
    · simp only [hstop hempty, List.mem_singleton] at hevaluate
      simp [hevaluate, NoValue.record]
    · obtain ⟨v, hv⟩ := hvalue hempty
      simp [hv] at hevaluate

end Cursor

/-- Two groups side by side with an operator behind them are parsed, and what has been parsed has a
value; where one of the groups is empty, it has none. -/
theorem evaluate_of_parse_juxtaposed :
    (∃ ts v, parse .forward ['(', '1', ')', '(', '2', ')', '+'] = .ok ts ∧
      evaluate ts = .ok (some v)) ∧
    ∃ ts, parse .forward ['(', '1', ')', '(', ')', '+'] = .ok ts ∧
      evaluate ts = .error (.emptyGroup .emptyGroup) := by
  constructor
  · obtain ⟨x, y, hparse⟩ : ∃ x y, parse .forward ['(', '1', ')', '(', '2', ')', '+'] =
        .ok [.number x 0, .number y 0, .binary .plus 0] := ⟨_, _, rfl⟩
    obtain ⟨v, hv⟩ := (Cursor.evaluate_of_parse hparse (by simp)).1 (by simp [Token.emptyGroup])
    exact ⟨_, v, hparse, hv⟩
  · obtain ⟨x, hparse⟩ : ∃ x, parse .forward ['(', '1', ')', '(', ')', '+'] =
        .ok [.number x 0, .emptyGroup, .binary .plus 0] := ⟨_, rfl⟩
    exact ⟨_, hparse, ((Cursor.evaluate_of_parse hparse (by simp)).2.1 (by simp)).1⟩

end Reckoner
