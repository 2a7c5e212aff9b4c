import Mathlib.Data.List.FinRange
import Reckoner.Proofs.Ordering

/-!
# What ordering moves

Ordering loses no token and invents none: a list that is not empty is refused exactly if its
operands and binary operators do not balance, and otherwise its tokens are moved to other places,
where the operands keep their order and no operator comes in front of an operand that it stood
behind (`order_moves`).  Nothing is assumed about the tokens and their priorities.

Equal tokens cannot be told apart, so the result alone does not show which of them has moved.
Therefore places are arranged in place of tokens (`Token.exists_traces`).  What comes in front of an
operand is then another operand that has been read before, or an operator that has been waiting, and
both stood at smaller places.
-/

namespace Reckoner

namespace Token

/-! ## Counting operators and operands -/

/-- How many operands a list uses up, by the numbers of its operands and binary operators. -/
lemma length_add_countP (ts : List Token) :
    ts.length + ts.countP (·.arity == 2) = consumed ts + ts.countP (!·.isOperator) := by
  induction ts with
  | nil => rfl
  | cons t ts ih =>
    have hfirst : 1 + (if t.arity == 2 then 1 else 0) =
        t.arity + (if !t.isOperator then 1 else 0) := by
      cases t <;> rfl
    rw [List.length_cons, consumed_cons, List.countP_cons, List.countP_cons]
    omega

/-- A list is balanced if it has one operand more than binary operators. -/
lemma balanced_iff_countP {ts : List Token} :
    balanced ts ↔ ts.countP (·.arity == 2) + 1 = ts.countP (!·.isOperator) := by
  have hcount := length_add_countP ts
  rw [balanced, beq_iff_eq]
  omega

/-! ## Arranging places -/

section

variable {ι : Type} {f : ι → Token} {waiting places out : List ι}

/-- In front of an operator anything may stand. -/
lemma pairwise_of_isOperator {R : ι → ι → Prop} (h : ∀ i ∈ places, (f i).isOperator) :
    places.Pairwise fun i j => (f j).isOperator = false → R i j := by
  apply List.pairwise_of_forall_mem_list
  intro i _ j hj hoperand
  rw [h j hj] at hoperand
  cases hoperand

/-- Of the operators at the places that wait, a binary operator releases those at some of them and
keeps the others waiting. -/
lemma exists_arrange_binary_map (f : ι → Token) (waiting : List ι) (op : Operator) (p : Int) :
    ∃ released kept, waiting = released ++ kept ∧
      ∀ ts, arrange (waiting.map f) (.binary op p :: ts) =
        released.map f ++ arrange (.binary op p :: kept.map f) ts := by
  let binds (i : ι) : Bool := p ≤ (f i).priority
  refine ⟨waiting.takeWhile binds, waiting.dropWhile binds,
    List.takeWhile_append_dropWhile.symm, fun ts => ?_⟩
  rw [arrange_binary, List.takeWhile_map, List.dropWhile_map]
  rfl

variable [LT ι]

/-- While the operators at the places `waiting` wait, the tokens at `places` are arranged as those
at `out`, and whatever comes in front of an operand has a smaller place. -/
structure Traces (f : ι → Token) (waiting places out : List ι) : Prop where
  arrange_eq : arrange (waiting.map f) (places.map f) = out.map f
  perm : out.Perm (waiting ++ places)
  pairwise : out.Pairwise fun i j => (f j).isOperator = false → i < j

namespace Traces

variable {k : ι} {op : Operator} {p : Int}

/-- An operand is not among the tokens that have been waiting. -/
lemma mem_of_operand (h : Traces f waiting places out) (hwaiting : ∀ i ∈ waiting, (f i).isOperator)
    {j : ι} (hj : j ∈ out) (hoperand : (f j).isOperator = false) : j ∈ places := by
  rcases List.mem_append.mp (h.perm.mem_iff.mp hj) with hj | hj
  · rw [hwaiting j hj] at hoperand
    cases hoperand
  · exact hj

/-- In the end what waits follows. -/
lemma nil (hwaiting : ∀ i ∈ waiting, (f i).isOperator) : Traces f waiting [] waiting :=
  ⟨rfl, by rw [List.append_nil], pairwise_of_isOperator hwaiting⟩

/-- An operand comes in front of all that is read behind it. -/
lemma operand (h : Traces f waiting places out) (hk : (f k).arity = 0)
    (hwaiting : ∀ i ∈ waiting, (f i).isOperator) (hfirst : ∀ j ∈ places, k < j) :
    Traces f waiting (k :: places) (k :: out) where
  arrange_eq := by rw [List.map_cons, List.map_cons, arrange_operand hk, h.arrange_eq]
  perm := (h.perm.cons k).trans List.perm_middle.symm
  pairwise := by
    refine List.pairwise_cons.mpr ⟨?_, h.pairwise⟩
    intro j hj hoperand
    exact hfirst j (h.mem_of_operand hwaiting hj hoperand)

/-- A unary operator waits. -/
lemma unary (h : Traces f (k :: waiting) places out) (hk : f k = .unary op p) :
    Traces f waiting (k :: places) out where
  arrange_eq := by
    have harrange := h.arrange_eq
    rw [List.map_cons, hk] at harrange
    rw [List.map_cons, hk, arrange_unary, harrange]
  perm := h.perm.trans List.perm_middle.symm
  pairwise := h.pairwise

/-- A binary operator waits, and the operators that it releases come in front of all that is read
behind it. -/
lemma binary {released : List ι} (h : Traces f (k :: waiting) places out)
    (hk : f k = .binary op p)
    (harrange : ∀ ts, arrange ((released ++ waiting).map f) (.binary op p :: ts) =
      released.map f ++ arrange (.binary op p :: waiting.map f) ts)
    (hoperators : ∀ i ∈ released ++ waiting, (f i).isOperator)
    (hbefore : ∀ i ∈ released, ∀ j ∈ places, i < j) :
    Traces f (released ++ waiting) (k :: places) (released ++ out) where
  arrange_eq := by
    have hrest := h.arrange_eq
    rw [List.map_cons, hk] at hrest
    rw [List.map_cons, hk, harrange, hrest, List.map_append]
  perm := by
    rw [List.append_assoc]
    exact (h.perm.trans List.perm_middle.symm).append_left released
  pairwise := by
    obtain ⟨hreleased, hwaiting⟩ := List.forall_mem_append.mp hoperators
    have hmore : ∀ i ∈ k :: waiting, (f i).isOperator :=
      List.forall_mem_cons.mpr ⟨by rw [hk]; rfl, hwaiting⟩
    refine List.pairwise_append.mpr ⟨pairwise_of_isOperator hreleased, h.pairwise, ?_⟩
    intro i hi j hj hoperand
    exact hbefore i hi j (h.mem_of_operand hmore hj hoperand)

end Traces

/-- When the tokens at the places of a list are arranged, so are the places.  If these come in
increasing order and the operators that wait stand in front of them, then in the end whatever comes
in front of an operand has a smaller place. -/
theorem exists_traces (hwaiting : ∀ i ∈ waiting, (f i).isOperator)
    (hplaces : places.Pairwise (· < ·)) (hbefore : ∀ i ∈ waiting, ∀ j ∈ places, i < j) :
    ∃ out, Traces f waiting places out := by
  induction places generalizing waiting with
  | nil => exact ⟨waiting, .nil hwaiting⟩
  | cons k places ih =>
    obtain ⟨hfirst, hrest⟩ := List.pairwise_cons.mp hplaces
    have hbehind : ∀ i ∈ waiting, ∀ j ∈ places, i < j :=
      fun i hi j hj => hbefore i hi j (List.mem_cons_of_mem k hj)
    cases hk : f k with
    | number v q | empty tag q =>
      obtain ⟨out, htraces⟩ := ih hwaiting hrest hbehind
      exact ⟨k :: out, htraces.operand (by rw [hk]; rfl) hwaiting hfirst⟩
    | unary op p =>
      have hmore : ∀ i ∈ k :: waiting, (f i).isOperator :=
        List.forall_mem_cons.mpr ⟨by rw [hk]; rfl, hwaiting⟩
      obtain ⟨out, htraces⟩ := ih hmore hrest (List.forall_mem_cons.mpr ⟨hfirst, hbehind⟩)
      exact ⟨out, htraces.unary hk⟩
    | binary op p =>
      obtain ⟨released, kept, rfl, harrange⟩ := exists_arrange_binary_map f waiting op p
      obtain ⟨hfront, hback⟩ := List.forall_mem_append.mp hbehind
      have hmore : ∀ i ∈ k :: kept, (f i).isOperator :=
        List.forall_mem_cons.mpr ⟨by rw [hk]; rfl, (List.forall_mem_append.mp hwaiting).2⟩
      obtain ⟨out, htraces⟩ := ih hmore hrest (List.forall_mem_cons.mpr ⟨hfirst, hback⟩)
      exact ⟨released ++ out, htraces.binary hk harrange hwaiting hfront⟩

end

end Token

/-- The tokens of `ts` that stand at `places`, one after the other, are those of `out`: every place
is there once, the operands keep their order, and no operator stands in front of an operand that it
stood behind. -/
structure Token.Moves (ts out : List Token) (places : List (Fin ts.length)) : Prop where
  perm : places.Perm (List.finRange ts.length)
  map_get : places.map ts.get = out
  operands : places.Pairwise fun i j =>
    (ts.get i).isOperator = false → (ts.get j).isOperator = false → i < j
  operators : places.Pairwise fun i j =>
    (ts.get i).isOperator → (ts.get j).isOperator = false → i < j

/-- A list of tokens that is not empty, whatever tokens it has, cannot be ordered exactly if its
binary operators and one more are not as many as its operands.  Otherwise its tokens are moved. -/
theorem order_moves {ts : List Token} (hne : ts ≠ []) :
    (order ts = none ↔ ts.countP (·.arity == 2) + 1 ≠ ts.countP (!·.isOperator)) ∧
      ∀ out, order ts = some out → ∃ places, Token.Moves ts out places := by
  have hrefused : order ts = none ↔ ¬ Token.balanced ts := by
    constructor
    · intro h hbalanced
      have hordered := (order_eq_some_iff.mpr ⟨hbalanced, rfl⟩).1
      rw [h] at hordered
      cases hordered
    · intro h
      exact order_eq_none hne (Bool.not_eq_true _ ▸ h)
  constructor
  · rw [hrefused, Token.balanced_iff_countP]
  · intro out hout
    have hsome : out ≠ [] := by
      rintro rfl
      exact hne (eq_nil_of_order hout)
    obtain ⟨-, rfl⟩ := order_eq_some_iff.mp ⟨hout, hsome⟩
    obtain ⟨places, htraces⟩ := Token.exists_traces (f := ts.get) (List.forall_mem_nil _)
      (List.pairwise_lt_finRange ts.length) (List.forall_mem_nil _)
    have harrange := htraces.arrange_eq
    rw [List.map_nil, List.map_get_finRange] at harrange
    refine ⟨places, htraces.perm, harrange.symm, ?operands, ?operators⟩
    case operands => exact htraces.pairwise.imp fun hbefore _ hoperand => hbefore hoperand
    case operators => exact htraces.pairwise.imp fun hbefore _ hoperand => hbefore hoperand

/-- In `/ - 1 2`, with priorities that no text gives, both operators move behind their operands. -/
theorem order_moves_operators_first :
    order [.binary .divide 7, .unary .minus 3, .number 1 5, .number 2 (-4)] =
        some [.number 1 5, .number 2 (-4), .unary .minus 3, .binary .divide 7] ∧
      ∃ places, Token.Moves [.binary .divide 7, .unary .minus 3, .number 1 5, .number 2 (-4)]
        [.number 1 5, .number 2 (-4), .unary .minus 3, .binary .divide 7] places := by
  have hordered : order [.binary .divide 7, .unary .minus 3, .number 1 5, .number 2 (-4)] =
      some [.number 1 5, .number 2 (-4), .unary .minus 3, .binary .divide 7] := rfl
  exact ⟨hordered, (order_moves (List.cons_ne_nil _ _)).2 _ hordered⟩

end Reckoner
