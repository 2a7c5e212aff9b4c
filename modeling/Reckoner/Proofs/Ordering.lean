import Mathlib.Data.List.Perm.Basic
import Reckoner.Order
import Reckoner.Proofs.Grammar

/-!
# Trees in evaluation order

The arrangement of an infix list by the priorities of its operators only moves tokens
(`Token.arrange_perm`), so an infix list can be ordered exactly if it is balanced
(`order_eq_some_iff`).  For the infix list of a derived tree the result is the post-order of the
tree (`Grammar.Derives.order_infixOrder`).

The latter is an induction over the derivation.  While the tokens of a tree are arranged, operators
from outside wait below and none of them may be released; afterwards the last operators of the
tree itself wait, until an operator of a looser level or the end releases them.  `Level.ceiling`
bounds what waits below, and `Level.offset` is the least that is left waiting.
-/

namespace Reckoner

namespace Token

/-! ## Arranging token by token -/

/-- An operand goes straight to its place. -/
lemma arrange_operand {t : Token} (ht : t.arity = 0) (waiting ts : List Token) :
    arrange waiting (t :: ts) = t :: arrange waiting ts := by
  simp only [arrange, ht]

/-- A unary operator waits for its operand and releases none that wait. -/
lemma arrange_unary (op : Operator) (p : Int) (waiting ts : List Token) :
    arrange waiting (.unary op p :: ts) = arrange (.unary op p :: waiting) ts := rfl

/-- A binary operator waits too, and first releases those that bind at least as tightly. -/
lemma arrange_binary (op : Operator) (p : Int) (waiting ts : List Token) :
    arrange waiting (.binary op p :: ts) =
      waiting.takeWhile (p ≤ ·.priority) ++
        arrange (.binary op p :: waiting.dropWhile (p ≤ ·.priority)) ts := rfl

/-! ## Arranging moves tokens -/

/-- Arranging puts the tokens of a list and the waiting operators into another order. -/
theorem arrange_perm (waiting ts : List Token) : (arrange waiting ts).Perm (waiting ++ ts) := by
  induction ts generalizing waiting with
  | nil => simp [arrange]
  | cons t ts ih =>
    unfold arrange
    split
    · have hrest := (ih waiting).cons t
      exact hrest.trans List.perm_middle.symm
    · have hrest := ih (t :: waiting)
      exact hrest.trans List.perm_middle.symm
    · have hrest := (ih (t :: waiting.dropWhile (t.priority ≤ ·.priority))).append_left
        (waiting.takeWhile (t.priority ≤ ·.priority))
      refine hrest.trans ?_
      rw [List.cons_append]
      refine List.perm_middle.trans ?_
      rw [← List.append_assoc, List.takeWhile_append_dropWhile]
      exact List.perm_middle.symm

@[simp] lemma consumed_cons (t : Token) (ts : List Token) :
    consumed (t :: ts) = t.arity + consumed ts := rfl

@[simp] lemma consumed_append (ts us : List Token) :
    consumed (ts ++ us) = consumed ts + consumed us := by
  induction ts with
  | nil => simp [consumed]
  | cons t ts ih => rw [List.cons_append, consumed_cons, consumed_cons, ih, Nat.add_assoc]

/-- What is used up does not depend on the order of the tokens. -/
lemma consumed_eq_of_perm {ts us : List Token} (h : ts.Perm us) : consumed ts = consumed us := by
  induction h with
  | nil => rfl
  | cons t _ ih => rw [consumed_cons, consumed_cons, ih]
  | swap t u ts => simp only [consumed_cons, Nat.add_left_comm]
  | trans _ _ ih ih' => exact ih.trans ih'

/-- Whether a list is balanced does not depend on the order of its tokens. -/
lemma balanced_eq_of_perm {ts us : List Token} (h : ts.Perm us) : balanced ts = balanced us := by
  rw [balanced, balanced, consumed_eq_of_perm h, h.length_eq]

end Token

/-- Only the empty list of tokens is ordered into no tokens. -/
lemma eq_nil_of_order {ts : List Token} (h : order ts = some []) : ts = [] := by
  cases ts with
  | nil => rfl
  | cons t ts =>
    simp only [order, List.isEmpty_cons, Bool.false_eq_true, if_false,
      Option.ite_none_right_eq_some, Option.some.injEq] at h
    obtain ⟨hbalanced, hnothing⟩ := h
    rw [hnothing] at hbalanced
    exact absurd hbalanced (by decide)

/-- A list of tokens can be ordered into at least one token if it is balanced, and is then arranged
by priorities. -/
theorem order_eq_some_iff {ts out : List Token} :
    order ts = some out ∧ out ≠ [] ↔ Token.balanced ts ∧ Token.arrange [] ts = out := by
  cases ts with
  | nil =>
    constructor
    · rintro ⟨h, hne⟩
      exact absurd (Option.some.inj h).symm hne
    · rintro ⟨hbalanced, -⟩
      exact absurd hbalanced (by decide)
  | cons t us =>
    have hperm := Token.arrange_perm [] (t :: us)
    have hne : Token.arrange [] (t :: us) ≠ [] := by
      intro hnil
      rw [hnil] at hperm
      exact absurd hperm.nil_eq (List.cons_ne_nil t us).symm
    simp only [order, List.isEmpty_cons, Token.balanced_eq_of_perm hperm, List.nil_append]
    simp only [Bool.false_eq_true, if_false, Option.ite_none_right_eq_some, Option.some.injEq]
    constructor
    · rintro ⟨h, -⟩
      exact h
    · rintro ⟨hbalanced, rfl⟩
      exact ⟨⟨hbalanced, rfl⟩, hne⟩

/-- Tokens that are not balanced cannot be ordered. -/
lemma order_eq_none {ts : List Token} (hne : ts ≠ []) (h : Token.balanced ts = false) :
    order ts = none := by
  have hperm := Token.arrange_perm [] ts
  rw [List.nil_append] at hperm
  have harranged : Token.balanced (Token.arrange [] ts) = false := by
    rw [Token.balanced_eq_of_perm hperm, h]
  simp [order, hne, harranged]

namespace Grammar

/-! ## The infix list of a tree -/

/-- The tokens of a tree in the order of writing, inside `depth` pairs of parentheses. -/
def Tree.infixOrder (step : Int) : Nat → Tree → List Token
  | _, numeral t => [.number (Numeral.value t) 0]
  | _, empty => [.emptyGroup]
  | depth, group e => e.infixOrder step (depth + 1)
  | depth, signed op e =>
    if op = .minus then .unary op (step * depth + Level.unary.offset) :: e.infixOrder step depth
    else e.infixOrder step depth
  | depth, binary op e f =>
    e.infixOrder step depth ++
      .binary op (step * depth + (Level.ofOperator op).offset) :: f.infixOrder step depth

namespace Tree

/-- The tokens of a tree are balanced. -/
lemma balanced_infixOrder (step : Int) (depth : Nat) (e : Tree) :
    Token.balanced (e.infixOrder step depth) := by
  simp only [Token.balanced, beq_iff_eq]
  induction e generalizing depth with
  | numeral | empty => rfl
  | group e ih => exact ih (depth + 1)
  | signed op e ih =>
    have hoperand := ih depth
    rw [infixOrder]
    split
    · simp only [Token.consumed_cons, List.length_cons, Token.arity]
      omega
    · exact hoperand
  | binary op e f ihe ihf =>
    have he := ihe depth
    have hf := ihf depth
    simp only [infixOrder, Token.consumed_append, Token.consumed_cons, List.length_append,
      List.length_cons, Token.arity]
    omega

/-- With a further operator in front that has no left operand, the tokens of a tree cannot be
ordered. -/
lemma order_binary_infixOrder {o : Token} (ho : o.arity = 2) (step : Int) (depth : Nat) (e : Tree) :
    order (o :: e.infixOrder step depth) = none := by
  have hcount : Token.consumed (e.infixOrder step depth) + 1 = (e.infixOrder step depth).length :=
    eq_of_beq (e.balanced_infixOrder step depth)
  refine order_eq_none (List.cons_ne_nil _ _) (beq_eq_false_iff_ne.mpr ?_)
  rw [Token.consumed_cons, List.length_cons]
  omega

end Tree

/-! ## Arranging the infix list of a tree -/

namespace Level

/-- The priorities of operators that wait while an expression of a level is arranged stay below
this, counted from the base of the place. -/
def ceiling : Level → Int
  | sum => 0
  | product => 1
  | quotient => 2
  | unary | atom => 3

lemma ceiling_le_next (l : Level) : l.ceiling ≤ l.next.ceiling := by cases l <;> decide

lemma offset_le_next (l : Level) : l.offset ≤ l.next.offset := by cases l <;> decide

lemma offset_lt_ceiling_next (l : Level) : l.offset < l.next.ceiling := by cases l <;> decide

/-- An operator releases no operator that waits below the expressions of its level. -/
lemma ceiling_ofOperator {op : Operator} (hop : op.isArithmetic) :
    (ofOperator op).ceiling = (ofOperator op).offset := by
  cases op <;> simp_all [Operator.isArithmetic, ofOperator, ceiling, offset]

end Level

/-- A binary operator releases what waits on top with at least its priority, and nothing below. -/
lemma arrange_pending_binary {op : Operator} {p : Int} {pending waiting : List Token}
    (hpending : ∀ o ∈ pending, p ≤ o.priority) (hwaiting : ∀ o ∈ waiting.head?, o.priority < p)
    (rest : List Token) :
    Token.arrange (pending ++ waiting) (.binary op p :: rest) =
      pending ++ Token.arrange (.binary op p :: waiting) rest := by
  have hreleased : ∀ o ∈ pending, decide (p ≤ o.priority) := by
    intro o ho
    exact decide_eq_true (hpending o ho)
  have hkept : ∀ o ∈ waiting.head?, decide (p ≤ o.priority) = false := by
    intro o ho
    have hbelow := hwaiting o ho
    simpa using hbelow
  obtain ⟨htake, hdrop⟩ := span_append hreleased waiting hkept
  rw [Token.arrange_binary, htake, hdrop]

/-- While the tokens of a derived tree are arranged nothing that waits below is released, and in
the end the last operators of the tree are waiting. -/
theorem Derives.arrange_infixOrder {step : Int} (hstep : 2 < step) {l : Level} {ls : List Lexeme}
    {e : Tree} (h : Derives l ls e) (depth : Nat) {waiting : List Token}
    (hwaiting : ∀ o ∈ waiting.head?, o.priority < step * depth + l.ceiling) (rest : List Token) :
    ∃ out pending, e.postOrder step depth = out ++ pending ∧
      (∀ o ∈ pending, step * depth + l.offset ≤ o.priority) ∧
      Token.arrange waiting (e.infixOrder step depth ++ rest) =
        out ++ Token.arrange (pending ++ waiting) rest := by
  induction h generalizing depth waiting rest with
  | numeral | empty => exact ⟨_, [], (List.append_nil _).symm, by simp, rfl⟩
  | group _ ih =>
    have hdeeper : step * ((depth + 1 : Nat) : Int) = step * depth + step := by
      simp [Int.mul_add]
    have hbelow : ∀ o ∈ waiting.head?,
        o.priority < step * ((depth + 1 : Nat) : Int) + Level.sum.ceiling := by
      intro o ho
      have houtside := hwaiting o ho
      simp only [Level.ceiling] at houtside ⊢
      omega
    obtain ⟨out, pending, hpost, hpending, harrange⟩ := ih (depth + 1) hbelow rest
    refine ⟨out, pending, hpost, ?_, harrange⟩
    intro o ho
    have hinside := hpending o ho
    simp only [Level.offset] at hinside ⊢
    omega
  | @signed op _ e hop _ ih =>
    by_cases hminus : op = .minus
    · -- The sign waits on top of what waits below, and is released last.
      have hbelow : ∀ o ∈ (Token.unary op (step * depth + Level.unary.offset) :: waiting).head?,
          o.priority < step * depth + Level.unary.ceiling := by
        rintro o ho
        obtain rfl := Option.some.inj ho
        simp [Token.priority, Level.offset, Level.ceiling]
      obtain ⟨out, pending, hpost, hpending, harrange⟩ := ih depth hbelow rest
      refine ⟨out, pending ++ [.unary op (step * depth + Level.unary.offset)], ?_, ?_, ?_⟩
      · simp [Tree.postOrder, hminus, hpost]
      · simpa [or_imp, forall_and, Token.priority] using hpending
      · simpa [Tree.infixOrder, hminus, Token.arrange, Token.arity] using harrange
    · obtain ⟨out, pending, hpost, hpending, harrange⟩ := ih depth hwaiting rest
      exact ⟨out, pending, by simp [Tree.postOrder, hminus, hpost], hpending,
        by simpa [Tree.infixOrder, hminus] using harrange⟩
  | @binary l op _ _ e f hop hl _ _ ihe ihf =>
    subst hl
    have hfloor := Level.ceiling_ofOperator hop
    have hnext := Level.offset_lt_ceiling_next (Level.ofOperator op)
    have hright := Level.offset_le_next (Level.ofOperator op)
    let joint : Token := .binary op (step * depth + (Level.ofOperator op).offset)
    obtain ⟨out, pending, hpost, hpending, harrange⟩ :=
      ihe depth hwaiting (joint :: (f.infixOrder step depth ++ rest))
    -- The operator releases what the left part has left waiting, and waits for the right part.
    have hbelow : ∀ o ∈ (joint :: waiting).head?,
        o.priority < step * depth + (Level.ofOperator op).next.ceiling := by
      rintro o ho
      obtain rfl := Option.some.inj ho
      simp only [joint, Token.priority]
      omega
    obtain ⟨out', pending', hpost', hpending', harrange'⟩ := ihf depth hbelow rest
    have hrelease : Token.arrange (pending ++ waiting)
        (joint :: (f.infixOrder step depth ++ rest)) =
          pending ++ Token.arrange (joint :: waiting) (f.infixOrder step depth ++ rest) :=
      arrange_pending_binary hpending (hfloor ▸ hwaiting) _
    refine ⟨out ++ pending ++ out', pending' ++ [joint], ?_, ?_, ?_⟩
    · simp [Tree.postOrder, hpost, hpost', joint]
    · intro o ho
      rcases List.mem_append.mp ho with ho | ho
      · have hpart := hpending' o ho
        omega
      · obtain rfl := List.mem_singleton.mp ho
        exact Int.le_refl _
    · rw [Tree.infixOrder, List.append_assoc, List.cons_append, harrange, hrelease, harrange']
      simp
  | @promote l _ _ _ ih =>
    have hceiling := Level.ceiling_le_next l
    have hoffset := Level.offset_le_next l
    have hbelow : ∀ o ∈ waiting.head?, o.priority < step * depth + l.next.ceiling := by
      intro o ho
      have houtside := hwaiting o ho
      omega
    obtain ⟨out, pending, hpost, hpending, harrange⟩ := ih depth hbelow rest
    refine ⟨out, pending, hpost, ?_, harrange⟩
    intro o ho
    have hpart := hpending o ho
    omega

/-- The tokens of a derived sum are ordered into the post-order of its tree. -/
theorem Derives.order_infixOrder {step : Int} (hstep : 2 < step) {ls : List Lexeme} {e : Tree}
    (h : Derives .sum ls e) (depth : Nat) :
    order (e.infixOrder step depth) = some (e.postOrder step depth) := by
  have hnone : ∀ o ∈ ([] : List Token).head?, o.priority < step * depth + Level.sum.ceiling := by
    simp
  obtain ⟨out, pending, hpost, -, harrange⟩ := h.arrange_infixOrder hstep depth hnone []
  refine (order_eq_some_iff.mpr ⟨e.balanced_infixOrder step depth, ?_⟩).1
  rw [hpost]
  simpa [Token.arrange] using harrange

end Grammar

end Reckoner
