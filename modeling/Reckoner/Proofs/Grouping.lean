import Reckoner.Proofs.Evaluability

/-!
# Grouping by priorities

A chain is an infix list of operands with binary operators between them and any number of unary
operators in front of each operand; priorities may be any integers.  Without unary operators the
order of a chain is that of a recursive split: the operator of the least priority, and of several
such operators the last one, comes last, behind the ordered parts on its left and on its right.
With unary operators a chain can still be ordered, and every operator finds its operands in front of
it (`Chain.order_grouping`).

The operators of a chain wait on one stack, and so the split has two halves.  When the last
minimum is read, everything on its left is released, as nothing there binds less tightly
(`Token.exists_waiting_of_arrange`); from then on it lies below all others that wait, and no binary
operator on its right reaches it (`Token.arrange_append_waiting`).
-/

namespace Reckoner

/-- A last member outside a class changes nothing in what is split off in front. -/
lemma span_append_singleton {α : Type} {p : α → Bool} {a : α} (ha : p a = false) (xs : List α) :
    (xs ++ [a]).takeWhile p = xs.takeWhile p ∧
      (xs ++ [a]).dropWhile p = xs.dropWhile p ++ [a] := by
  induction xs with
  | nil => simp [ha]
  | cons x xs ih => by_cases hx : p x <;> simp [hx, ih]

namespace Token

variable {op : Operator} {p : Int} {ts us waiting : List Token} {o : Token}

/-! ## Splitting an arrangement -/

/-- Arranging the first tokens of a list puts some of them to their places and leaves operators
waiting, whatever the other tokens are; none that waits binds less tightly than all did before. -/
lemma exists_waiting_of_arrange (hwaiting : ∀ o ∈ waiting, p ≤ o.priority)
    (hts : ∀ o ∈ ts, o.isOperator → p ≤ o.priority) :
    ∃ out left, (∀ o ∈ left, p ≤ o.priority) ∧
      ∀ rest, arrange waiting (ts ++ rest) = out ++ arrange left rest := by
  induction ts generalizing waiting with
  | nil => exact ⟨[], waiting, hwaiting, fun rest => rfl⟩
  | cons t ts ih =>
    obtain ⟨hfirst, hothers⟩ := List.forall_mem_cons.mp hts
    by_cases ht : t.arity = 0
    · obtain ⟨out, left, hleft, hrest⟩ := ih hwaiting hothers
      refine ⟨t :: out, left, hleft, fun rest => ?_⟩
      rw [List.cons_append, arrange_operand ht, hrest, List.cons_append]
    cases t with
    | number | empty => exact absurd rfl ht
    | unary op q => exact ih (List.forall_mem_cons.mpr ⟨hfirst rfl, hwaiting⟩) hothers
    | binary op q =>
      have hkept : ∀ o ∈ binary op q :: waiting.dropWhile (q ≤ ·.priority), p ≤ o.priority := by
        refine List.forall_mem_cons.mpr ⟨hfirst rfl, fun o ho => ?_⟩
        exact hwaiting o ((List.dropWhile_suffix _).subset ho)
      obtain ⟨out, left, hleft, hrest⟩ := ih hkept hothers
      refine ⟨waiting.takeWhile (q ≤ ·.priority) ++ out, left, hleft, fun rest => ?_⟩
      rw [List.cons_append, arrange_binary, hrest, List.append_assoc]

/-- A binary operator releases all that waits if no operator on its left binds less tightly. -/
lemma arrange_append_binary (hleft : ∀ o ∈ ts, o.isOperator → p ≤ o.priority) (us : List Token) :
    arrange [] (ts ++ .binary op p :: us) = arrange [] ts ++ arrange [.binary op p] us := by
  obtain ⟨out, left, hreleased, hrest⟩ := exists_waiting_of_arrange (List.forall_mem_nil _) hleft
  have hall : arrange left (.binary op p :: us) = left ++ arrange [.binary op p] us := by
    have hpending : arrange (left ++ []) (.binary op p :: us) = left ++ arrange [.binary op p] us :=
      Grammar.arrange_pending_binary hreleased (by simp) us
    rwa [List.append_nil] at hpending
  have halone : arrange [] ts = out ++ left := by simpa [arrange] using hrest []
  rw [hrest, hall, halone, List.append_assoc]

/-- What waits below an operator that no binary operator of a list reaches is released last. -/
lemma arrange_append_waiting (hright : ∀ t ∈ us, t.arity = 2 → o.priority < t.priority)
    (waiting : List Token) : arrange (waiting ++ [o]) us = arrange waiting us ++ [o] := by
  induction us generalizing waiting with
  | nil => rfl
  | cons t us ih =>
    obtain ⟨hfirst, hothers⟩ := List.forall_mem_cons.mp hright
    cases t with
    | number v p | empty tag p =>
      rw [arrange_operand rfl, arrange_operand rfl, ih hothers, List.cons_append]
    | unary op p =>
      rw [arrange_unary, arrange_unary, ← List.cons_append, ih hothers]
    | binary op p =>
      have hbelow : o.priority < p := hfirst rfl
      obtain ⟨hreleased, hkept⟩ :=
        span_append_singleton (p := fun o : Token => decide (p ≤ o.priority))
          (decide_eq_false (Int.not_le.mpr hbelow)) waiting
      rw [arrange_binary, arrange_binary, hreleased, hkept, ← List.cons_append, ih hothers,
        List.append_assoc]

/-- Where a binary operator binds no more tightly than any operator on its left, and less tightly
than all binary ones on its right, it comes last, behind the arrangements of both sides. -/
theorem arrange_split (ho : o.arity = 2)
    (hleft : ∀ t ∈ ts, t.isOperator → o.priority ≤ t.priority)
    (hright : ∀ t ∈ us, t.arity = 2 → o.priority < t.priority) :
    arrange [] (ts ++ o :: us) = arrange [] ts ++ arrange [] us ++ [o] := by
  cases o with
  | binary op p =>
    have hreleased : arrange [] (ts ++ binary op p :: us) =
        arrange [] ts ++ arrange [binary op p] us := arrange_append_binary hleft us
    have hlast := arrange_append_waiting hright []
    rw [List.nil_append] at hlast
    rw [hreleased, hlast, List.append_assoc]
  | number | unary | empty => cases ho

/-- The tokens that take a given number of operands. -/
def OfArity (n : Nat) : Type := { t : Token // t.arity = n }

end Token

/-! ## Chains -/

namespace Chain

open Token

/-- An operand with the unary operators in front of it. -/
structure Operand where
  signs : List (OfArity 1)
  value : OfArity 0

/-- A binary operator with the operand on its right. -/
structure Link where
  joint : OfArity 2
  operand : Operand

/-- The tokens of an operand. -/
def Operand.tokens (x : Operand) : List Token := x.signs.map Subtype.val ++ [x.value.1]

/-- The tokens of a link. -/
def Link.tokens (l : Link) : List Token := l.joint.1 :: l.operand.tokens

/-- The priority of the operator of a link. -/
def Link.priority (l : Link) : Int := l.joint.1.priority

/-- The tokens of a chain, the first operand and the links behind it. -/
def tokens (x : Operand) (links : List Link) : List Token :=
  x.tokens ++ links.flatMap Link.tokens

/-- Does no unary operator stand in a chain? -/
def IsPlain (x : Operand) (links : List Link) : Prop :=
  x.signs = [] ∧ ∀ l ∈ links, l.operand.signs = []

/-- The last of the links at which the priority is the least. -/
structure IsLastMinimum (links : List Link) (k : Nat) (hk : k < links.length) : Prop where
  le : ∀ i (hi : i < links.length), links[k].priority ≤ links[i].priority
  lt : ∀ i (hi : i < links.length), k < i → links[k].priority < links[i].priority

variable {x : Operand} {links : List Link}

/-- No link binds less tightly than the last minimum. -/
lemma IsLastMinimum.le_of_mem {k : Nat} {hk : k < links.length} (h : IsLastMinimum links k hk)
    {l : Link} (hl : l ∈ links) : links[k].priority ≤ l.priority := by
  obtain ⟨i, hi, rfl⟩ := List.getElem_of_mem hl
  exact h.le i hi

/-- Behind the last minimum, all links bind more tightly. -/
lemma IsLastMinimum.lt_of_mem_drop {k : Nat} {hk : k < links.length}
    (h : IsLastMinimum links k hk) {l : Link} (hl : l ∈ links.drop (k + 1)) :
    links[k].priority < l.priority := by
  obtain ⟨i, hi, rfl⟩ := List.getElem_of_mem hl
  rw [List.length_drop] at hi
  rw [List.getElem_drop]
  exact h.lt _ (by omega) (by omega)

/-! ### Tokens of a chain -/

/-- A chain is split at any of its links. -/
lemma tokens_split (x : Operand) {k : Nat} (hk : k < links.length) :
    tokens x links = tokens x (links.take k) ++
      links[k].joint.1 :: tokens links[k].operand (links.drop (k + 1)) := by
  conv_lhs => rw [← List.take_append_drop k links, List.drop_eq_getElem_cons hk]
  simp only [tokens, Link.tokens, List.flatMap_append, List.flatMap_cons, List.append_assoc,
    List.cons_append]

/-- The tokens of an operand are its value and its unary operators. -/
lemma Operand.arity_of_mem {o : Token} (ho : o ∈ x.tokens) :
    o.arity = 0 ∨ o.arity = 1 ∧ x.signs ≠ [] := by
  rcases List.mem_append.mp ho with hsign | hvalue
  · obtain ⟨s, hs, rfl⟩ := List.mem_map.mp hsign
    exact .inr ⟨s.2, List.ne_nil_of_mem hs⟩
  · obtain rfl := List.mem_singleton.mp hvalue
    exact .inl x.value.2

/-- An operator of a chain is that of a link, or a unary operator of a chain that is not plain. -/
lemma exists_link_of_mem {o : Token} (ho : o ∈ tokens x links) (hop : o.isOperator) :
    (∃ l ∈ links, l.joint.1 = o) ∨ o.arity = 1 ∧ ¬ IsPlain x links := by
  have harity : o.arity ≠ 0 := by simpa [isOperator] using hop
  rcases List.mem_append.mp ho with hfirst | hlink
  · obtain ⟨hone, hsigns⟩ := (Operand.arity_of_mem hfirst).resolve_left harity
    exact .inr ⟨hone, fun hplain => hsigns hplain.1⟩
  · obtain ⟨l, hl, hmem⟩ := List.mem_flatMap.mp hlink
    rcases List.mem_cons.mp hmem with rfl | hoperand
    · exact .inl ⟨l, hl, rfl⟩
    · obtain ⟨hone, hsigns⟩ := (Operand.arity_of_mem hoperand).resolve_left harity
      exact .inr ⟨hone, fun hplain => hsigns (hplain.2 l hl)⟩

/-! ### The order of a chain -/

/-- Unary operators leave as many operands as there are. -/
lemma tally_signs (signs : List (OfArity 1)) (n : Nat) :
    tally lefts n (signs.map Subtype.val) = some n := by
  induction signs with
  | nil => rfl
  | cons s signs ih =>
    refine tally_cons_eq_some.mpr ⟨?_, ?_⟩
    · simp [lefts, s.2]
    · rwa [s.2, Nat.add_sub_cancel]

/-- An operand leaves one more than there are. -/
lemma tally_operand (x : Operand) (n : Nat) : tally lefts n x.tokens = some (n + 1) := by
  rw [Operand.tokens, tally_append (tally_signs x.signs n), tally_cons_eq_some]
  constructor
  · simp [lefts, x.value.2]
  · rw [x.value.2]
    rfl

/-- A link leaves one operand in place of the one on its left and its own. -/
lemma tally_link (l : Link) : tally lefts 1 l.tokens = some 1 := by
  rw [Link.tokens, tally_cons_eq_some]
  constructor
  · simp [lefts, l.joint.2]
  · rw [l.joint.2]
    exact tally_operand l.operand 0

/-- A chain leaves one operand. -/
lemma tally_tokens (x : Operand) (links : List Link) : tally lefts 0 (tokens x links) = some 1 := by
  rw [tokens, tally_append (tally_operand x 0)]
  induction links with
  | nil => rfl
  | cons l links ih => rw [List.flatMap_cons, tally_append (tally_link l), ih]

/-- A chain can be ordered. -/
lemma order_tokens (x : Operand) (links : List Link) :
    order (tokens x links) = some (arrange [] (tokens x links)) := by
  have hsum := consumed_add (tally_tokens x links)
  refine (order_eq_some_iff.mpr ⟨?_, rfl⟩).1
  rw [balanced, beq_iff_eq, hsum, Nat.zero_add]

/-- A chain of at least one operator, without unary ones, is ordered by a split at the last operator
of the least priority: first come the operands and operators on its left in their order, then those
on its right in theirs, and at last the operator itself.  Any chain can be ordered, also one with
unary operators of any priorities in front of its operands; in the order every operator finds as
many operands as it takes, and one value is left. -/
theorem order_grouping (x : Operand) (links : List Link) :
    (IsPlain x links → ∀ k (hk : k < links.length), IsLastMinimum links k hk →
      ∃ left right, order (tokens x (links.take k)) = some left ∧
        order (tokens links[k].operand (links.drop (k + 1))) = some right ∧
        order (tokens x links) = some (left ++ right ++ [links[k].joint.1])) ∧
    ∃ out, order (tokens x links) = some out ∧ tally arity 0 out = some 1 := by
  constructor
  · intro hplain k hk hmin
    have hbefore : IsPlain x (links.take k) :=
      ⟨hplain.1, fun l hl => hplain.2 l (List.mem_of_mem_take hl)⟩
    have hleft : ∀ o ∈ tokens x (links.take k), o.isOperator →
        links[k].priority ≤ o.priority := by
      intro o ho hop
      obtain ⟨l, hl, rfl⟩ := (exists_link_of_mem ho hop).resolve_right fun h => h.2 hbefore
      exact hmin.le_of_mem (List.mem_of_mem_take hl)
    have hright : ∀ o ∈ tokens links[k].operand (links.drop (k + 1)), o.arity = 2 →
        links[k].priority < o.priority := by
      intro o ho hbinary
      have hop : o.isOperator := by simp [isOperator, hbinary]
      have hnot : ¬ (o.arity = 1 ∧ ¬ IsPlain links[k].operand (links.drop (k + 1))) := by
        rw [hbinary]
        exact fun h => absurd h.1 (by decide)
      obtain ⟨l, hl, rfl⟩ := (exists_link_of_mem ho hop).resolve_right hnot
      exact hmin.lt_of_mem_drop hl
    refine ⟨_, _, order_tokens _ _, order_tokens _ _, ?_⟩
    rw [order_tokens, tokens_split x hk, arrange_split links[k].joint.2 hleft hright]
  · refine ⟨_, order_tokens x links, ?_⟩
    exact tally_arrange (List.forall_mem_nil _) (tally_tokens x links)

/-- In `8 - 3 * 2 - 1` the second difference is the last operator of the least priority: first comes
the order of `8 - 3 * 2`, then that of `1`, and then this difference. -/
theorem order_grouping_differences :
    order [.number 8 0, .binary .minus 0, .number 3 0, .binary .multiply 1, .number 2 0,
        .binary .minus 0, .number 1 0] =
      some ([.number 8 0, .number 3 0, .number 2 0, .binary .multiply 1, .binary .minus 0] ++
        [.number 1 0] ++ [.binary .minus 0]) := by
  let links : List Link :=
    [⟨⟨.binary .minus 0, rfl⟩, ⟨[], .number 3 0, rfl⟩⟩,
      ⟨⟨.binary .multiply 1, rfl⟩, ⟨[], .number 2 0, rfl⟩⟩,
      ⟨⟨.binary .minus 0, rfl⟩, ⟨[], .number 1 0, rfl⟩⟩]
  have hlength : links.length = 3 := rfl
  have hplain : IsPlain ⟨[], .number 8 0, rfl⟩ links := ⟨rfl, by simp [links]⟩
  have hmin : IsLastMinimum links 2 (by decide) := by
    constructor
    · intro i hi
      obtain rfl | rfl | rfl : i = 0 ∨ i = 1 ∨ i = 2 := by omega
      · exact Int.le_refl 0
      · exact (by decide : (0 : Int) ≤ 1)
      · exact Int.le_refl 0
    · intro i hi hlater
      omega
  obtain ⟨left, right, hleft, hright, hwhole⟩ := (order_grouping _ links).1 hplain 2 _ hmin
  obtain rfl := Option.some.inj hleft
  obtain rfl := Option.some.inj hright
  exact hwhole

end Chain

end Reckoner
