import Reckoner.Proofs.Evaluability
import Reckoner.Proofs.Sentences

/-!
# What is accepted from the left

A text that is parsed from the left into at least one token is a sentence of the grammar or it has
two gaps (`parse_forward_accepts_iff`): no operator between two groups side by side, and no operand
at its end.  Behind a closing parenthesis the reader also lets a group begin, so groups side by side
are found only by the count of tokens at the end, and there one operand too many and one operand too
few make up for each other.

While lexemes are read, `Nested` says what stands in the open groups: in front of every open
parenthesis a row to which a unary expression may be added, and in the innermost group what the open
slots tell.  `Progress.Accounts` adds the tally of the tokens, which counts the places where groups
have met.  Where there was none of them the row itself is nested; where there was one, the row is
nested once an operator has been put there.
-/

namespace Reckoner

namespace Grammar

open Lexeme

/-! ## Open groups -/

/-- The rows to which any unary expression may be added. -/
def Leads (ls : List Lexeme) : Prop :=
  ∀ ms, Derivable .unary ms → Derivable .sum (ls ++ ms)

/-- What has been read since the innermost open parenthesis, by the slots that are open. -/
def Content (e : Expectation) (ls : List Lexeme) : Prop :=
  if e.operator then Derivable .sum ls else if e.emptyGroup then ls = [] else Leads ls

/-- The rows with `depth` open parentheses: each of them stands where a unary expression may begin,
and what comes behind the innermost one is in `P`. -/
def Nested (P : List Lexeme → Prop) : Nat → List Lexeme → Prop
  | 0, ls => P ls
  | depth + 1, ls => ∃ outer inner, ls = outer ++ .symbol .leftParenthesis :: inner ∧
      Nested Leads depth outer ∧ P inner

/-- Two groups side by side, the one at the end of `x` and the one that begins in front of `y`. -/
def sideBySide (x y : List Lexeme) : List Lexeme :=
  x ++ .symbol .rightParenthesis :: .symbol .leftParenthesis :: y

/-- The same two groups, joined by an operator. -/
def joinedBy (op : Operator) (x y : List Lexeme) : List Lexeme :=
  x ++ .symbol .rightParenthesis :: .symbol op :: .symbol .leftParenthesis :: y

/-- The rows with two gaps: a sum in which an operator between two groups and the numeral at the end
have been left out. -/
def Gapped (ls : List Lexeme) : Prop :=
  ∃ x y op t, Operator.isArithmetic op ∧ ls = sideBySide x y ∧
    Derivable .sum (joinedBy op x (y ++ [.numeral t]))

/-- The texts that write a row with two gaps. -/
def IsGapped (t : Text) : Prop := ∃ ls, Gapped ls ∧ Spells ls t

variable {P Q : List Lexeme → Prop} {depth : Nat} {ls ms : List Lexeme} {op : Operator}

/-- What is added to a nested row is added to its innermost group. -/
lemma Nested.append (h : Nested P depth ls) (hPQ : ∀ inner, P inner → Q (inner ++ ms)) :
    Nested Q depth (ls ++ ms) := by
  cases depth with
  | zero => exact hPQ ls h
  | succ depth =>
    obtain ⟨outer, inner, rfl, houter, hinner⟩ := h
    exact ⟨outer, inner ++ ms, by simp, houter, hPQ inner hinner⟩

/-- What is said of the innermost group may be weakened. -/
lemma Nested.imp (h : Nested P depth ls) (hPQ : ∀ inner, P inner → Q inner) :
    Nested Q depth ls := by
  rw [← List.append_nil ls]
  exact h.append fun inner hinner => by simpa using hPQ inner hinner

/-- A parenthesis opens where a unary expression may begin. -/
lemma Nested.enter (h : Nested Leads depth ls) :
    Nested (· = []) (depth + 1) (ls ++ [.symbol .leftParenthesis]) :=
  ⟨ls, [], rfl, h, rfl⟩

/-- A parenthesis closes behind the content of a group. -/
lemma Nested.leave (h : Nested P (depth + 1) ls) (hP : ∀ inner, P inner →
      Derivable .atom (.symbol .leftParenthesis :: (inner ++ [.symbol .rightParenthesis]))) :
    Nested (Derivable .sum) depth (ls ++ [.symbol .rightParenthesis]) := by
  obtain ⟨outer, inner, rfl, houter, hinner⟩ := h
  have hgroup := (hP inner hinner).promote .unary
  simpa using houter.append fun _ hleads => hleads _ hgroup

/-- A unary expression may begin an expression. -/
lemma leads_nil : Leads [] := fun _ h => h.of_unary .sum (by decide)

/-- A numeral may be added where a unary expression may. -/
lemma Leads.numeral {t : Text} (h : Leads ls) (ht : Numeral.IsNumeral t) :
    Derivable .sum (ls ++ [.numeral t]) :=
  h _ (Derivable.promote .unary ⟨_, .numeral ht⟩)

/-- A sign may be added where a unary expression may. -/
lemma Leads.sign (h : Leads ls) (hop : op.isSign) : Leads (ls ++ [.symbol op]) := by
  rintro ms ⟨e, he⟩
  simpa using h _ ⟨_, .signed hop he⟩

/-- An operator may be added to an expression. -/
lemma Derivable.operator (h : Derivable .sum ls) (hop : op.isArithmetic) :
    Leads (ls ++ [.symbol op]) := by
  intro ms hms
  simpa using h.extend hop hms

/-- Where no operator may stand, a unary expression may begin. -/
lemma Content.leads {e : Expectation} (h : Content e ls) (he : e.operator = false) : Leads ls := by
  rw [Content, if_neg (by simp [he])] at h
  split at h
  · rw [h]
    exact leads_nil
  · exact h

/-- Where an operator may stand, an expression is complete. -/
lemma Content.derivable {e : Expectation} (h : Content e ls) (he : e.operator) :
    Derivable .sum ls := by
  rwa [Content, if_pos he] at h

end Grammar

open Grammar

namespace Progress

variable {step : Int} {signed : Bool} {p q : Progress} {l : Lexeme} {cat c : Category}
  {ls rest : List Lexeme}

/-! ## What a reader has accepted -/

/-- What is taken keeps the row nested, unless a group begins directly behind an operand. -/
theorem Takes.nested (h : Takes step .forward signed p l cat q)
    (hp : p.expected = .following .forward c) (hl : IsTerminal l)
    (hseam : p.expected.operator → cat ≠ .opening)
    (hrow : Nested (Content p.expected) p.depth ls) :
    Nested (Content q.expected) q.depth (ls ++ [l]) := by
  have hq := h.expected_eq
  rw [hp] at hrow hseam
  cases h with
  | number h hk =>
    have hoperand : (Expectation.following .forward c).operator = false := by
      simpa [hp, Expectation.number_following] using h
    exact hrow.append fun inner hinner => (hinner.leads hoperand).numeral hl
  | @sign op h hop _ =>
    have hoperand : (Expectation.following .forward c).operator = false := by
      simpa [hp, Expectation.sign_following_forward] using h
    rw [hq, pushSign_depth]
    exact hrow.append fun inner hinner => (hinner.leads hoperand).sign hop
  | operator h hop _ =>
    have hoperator : (Expectation.following .forward c).operator := by simpa [hp] using h
    exact hrow.append fun inner hinner => (hinner.derivable hoperator).operator hop
  | enter h =>
    have hoperand : (Expectation.following .forward c).operator = false := by
      simpa using hseam
    exact (hrow.imp fun inner hinner => hinner.leads hoperand).enter
  | leave h hdepth =>
    rw [hp] at h
    rw [hdepth] at hrow
    rw [hq, pushEmpty_depth]
    refine hrow.leave fun inner hinner => ?_
    cases hempty : (Expectation.following .forward c).emptyGroup with
    | false =>
      have hoperator : (Expectation.following .forward c).operator := by
        simpa [hempty, Expectation.closing_following_forward] using h
      obtain ⟨e, he⟩ := hinner.derivable hoperator
      exact ⟨_, .group he⟩
    | true =>
      rw [Content, if_neg (by simp [Expectation.operator_eq_false_of_emptyGroup hempty]),
        if_pos hempty] at hinner
      subst hinner
      exact ⟨_, .empty⟩

/-- From the left, only an opening parenthesis is taken as one. -/
lemma Takes.eq_of_opening (h : Takes step .forward signed p l .opening q) :
    p.expected.opening ∧ l = .symbol .leftParenthesis ∧
      q = ⟨.following .forward .opening, p.depth + 1, p.tokens⟩ := by
  generalize hcat : Category.opening = cat at h
  cases h with
  | enter h => exact ⟨by simpa using h, rfl, rfl⟩
  | number | sign | operator | leave => cases hcat

/-- From the left, only a closing parenthesis is taken as one. -/
lemma Takes.eq_of_closing (h : Takes step .forward signed p l .closing q) :
    l = .symbol .rightParenthesis := by
  generalize hcat : Category.closing = cat at h
  cases h with
  | leave => rfl
  | number | sign | operator | enter => cases hcat

/-- The row that has been read, the number of places in it where groups have met, and the reader. -/
structure Accounts (row : List Lexeme) (j : Nat) (p : Progress) : Prop where
  state : ∃ c, p.expected = .following .forward c
  count : Token.tally Token.lefts 0 p.tokens.reverse = some (j + p.expected.operator.toNat)
  closed : p.expected.operator → p.expected.opening →
    ∃ x, row = x ++ [.symbol .rightParenthesis]
  whole : j = 0 → Nested (Content p.expected) p.depth row
  gap : j = 1 → ∃ x y, row = sideBySide x y ∧
    ∀ op : Operator, op.isArithmetic → Nested (Content p.expected) p.depth (joinedBy op x y)

/-- Before anything has been read, no groups have met. -/
lemma accounts_start : Accounts [] 0 (.start .forward) where
  state := ⟨.operator, Expectation.start_eq .forward⟩
  count := rfl
  closed h := absurd h (by decide)
  whole _ := leads_nil
  gap h := absurd h (by decide)

/-- A group that begins directly behind another one is one more place where groups have met. -/
lemma Accounts.meet {row : List Lexeme} {j : Nat} (hp : Accounts row j p)
    (h : Takes step .forward signed p l .opening q) (hoperator : p.expected.operator) :
    Accounts (row ++ [l]) (j + 1) q := by
  obtain ⟨c, hc⟩ := hp.state
  have hcount := h.tally_forward hc hp.count
  rw [if_pos ⟨rfl, hoperator⟩] at hcount
  obtain ⟨hopening, rfl, rfl⟩ := h.eq_of_opening
  obtain ⟨x, rfl⟩ := hp.closed hoperator hopening
  refine ⟨⟨.opening, rfl⟩, hcount, ?closed, ?whole, ?gap⟩
  case closed =>
    intro hcomplete
    exact absurd hcomplete Bool.false_ne_true
  case whole =>
    intro hj
    exact absurd hj (Nat.succ_ne_zero j)
  case gap =>
    intro hj
    have hwhole := hp.whole (Nat.succ.inj hj)
    refine ⟨x, [], by simp [sideBySide], fun op hop => ?_⟩
    have hjoined : Nested Leads p.depth (x ++ [.symbol .rightParenthesis] ++ [.symbol op]) :=
      hwhole.append fun _ hinner => (hinner.derivable hoperator).operator hop
    have hentered : Nested (Content (.following .forward .opening)) (p.depth + 1) _ :=
      hjoined.enter
    simpa [joinedBy] using hentered

/-- What is taken elsewhere adds no place where groups have met. -/
lemma Accounts.go_on {row : List Lexeme} {j : Nat} (hp : Accounts row j p)
    (h : Takes step .forward signed p l cat q) (hl : IsTerminal l)
    (hseam : p.expected.operator → cat ≠ .opening) : Accounts (row ++ [l]) j q := by
  obtain ⟨c, hc⟩ := hp.state
  have hcount := h.tally_forward hc hp.count
  rw [if_neg fun ⟨hcat, hoperator⟩ => hseam hoperator hcat] at hcount
  refine ⟨⟨cat, h.expected_eq⟩, hcount, ?closed, ?whole, ?gap⟩
  case closed =>
    intro hoperator hopening
    rw [h.expected_eq] at hoperator hopening
    obtain rfl := Expectation.eq_closing_of_operator_of_opening hoperator hopening
    exact ⟨row, by rw [h.eq_of_closing]⟩
  case whole =>
    intro hj
    exact h.nested hc hl hseam (hp.whole hj)
  case gap =>
    intro hj
    obtain ⟨x, y, rfl, hgap⟩ := hp.gap hj
    refine ⟨x, y ++ [l], by simp [sideBySide], fun op hop => ?_⟩
    have hjoined : joinedBy op x (y ++ [l]) = joinedBy op x y ++ [l] := by simp [joinedBy]
    rw [hjoined]
    exact h.nested hc hl hseam (hgap op hop)

/-- A run accounts for all lexemes that it has taken. -/
theorem Reads.accounts (h : Reads step .forward (.start .forward) ls rest q)
    (hls : ∀ l ∈ ls, IsTerminal l) : ∃ j, Accounts ls j q := by
  refine h.invariant (I := fun row p => (∀ l ∈ row, IsTerminal l) → ∃ j, Accounts row j p) ?_ []
    (fun _ => ⟨0, accounts_start⟩) hls
  intro row p signed l cat q hp htakes hrow
  have hbefore : ∀ m ∈ row, IsTerminal m := fun m hm => hrow m (List.mem_append_left _ hm)
  have hl : IsTerminal l := hrow l (by simp)
  obtain ⟨j, hj⟩ := hp hbefore
  by_cases hseam : p.expected.operator ∧ cat = .opening
  · obtain ⟨hoperator, rfl⟩ := hseam
    exact ⟨j + 1, hj.meet htakes hoperator⟩
  · exact ⟨j, hj.go_on htakes hl fun hoperator hcat => hseam ⟨hoperator, hcat⟩⟩

/-- Where no parenthesis is open, the tokens are balanced and an operator may stand, the row is a
sum. -/
lemma Accounts.derivable {row : List Lexeme} {j : Nat} (hp : Accounts row j p) (hdepth : p.depth = 0)
    (hbalanced : Token.balanced p.tokens.reverse) (hoperator : p.expected.operator) :
    Derivable .sum row := by
  have hone := Token.eq_one_of_balanced hp.count hbalanced
  have hnone : j = 0 := by simpa [hoperator] using hone
  have hwhole := hp.whole hnone
  rw [hdepth] at hwhole
  exact Content.derivable hwhole hoperator

/-- Where no parenthesis is open and the tokens are balanced, the row is a sum or has two gaps. -/
theorem Accounts.derivable_or_gapped {row : List Lexeme} {j : Nat} (hp : Accounts row j p)
    (hdepth : p.depth = 0) (hbalanced : Token.balanced p.tokens.reverse) :
    Derivable .sum row ∨ Gapped row := by
  cases hoperator : p.expected.operator with
  | true => exact .inl (hp.derivable hdepth hbalanced hoperator)
  | false =>
    -- A further operand is missing at the end, and one place where groups have met makes up for it.
    have hone := Token.eq_one_of_balanced hp.count hbalanced
    have hmet : j = 1 := by simpa [hoperator] using hone
    obtain ⟨x, y, hrow, hgap⟩ := hp.gap hmet
    have hjoined := hgap .plus rfl
    rw [hdepth] at hjoined
    have hdigit : Numeral.IsNumeral ['0'] := .whole (List.cons_ne_nil '0' []) (by simp)
    refine .inr ⟨x, y, .plus, ['0'], rfl, hrow, ?_⟩
    simpa [joinedBy] using (Content.leads hjoined hoperator).numeral hdigit

/-- A run from the left that leaves no parenthesis open and ends where an operand is missing has taken
an arithmetic symbol last. -/
lemma Reads.exists_eq_append_symbol (h : Reads step .forward p ls rest q) (hne : ls ≠ [])
    (hdepth : q.depth = 0) (hoperand : q.expected.operator = false) :
    ∃ ms op, Operator.isArithmetic op ∧ ls = ms ++ [.symbol op] := by
  obtain ⟨ms, l, rfl⟩ := (List.eq_nil_or_concat ls).resolve_left hne
  rw [List.concat_eq_append] at h ⊢
  obtain ⟨r, -, hlast⟩ := Reads.append_iff.mp h
  obtain ⟨cat, _, htakes, hend⟩ := Reads.cons_iff.mp hlast
  obtain rfl := Reads.nil_iff.mp hend
  cases htakes with
  | sign _ hop _ => exact ⟨ms, _, Operator.isArithmetic_of_isSign hop, rfl⟩
  | operator _ hop _ => exact ⟨ms, _, hop, rfl⟩
  | enter => exact absurd hdepth (Nat.succ_ne_zero _)
  | number => exact absurd hoperand.symm Bool.false_ne_true
  | leave =>
    rw [pushEmpty_expected] at hoperand
    exact absurd hoperand.symm Bool.false_ne_true

/-! ## Rows with two gaps -/

/-- Behind a closing parenthesis a group may begin. -/
lemma Takes.expected_of_rightParenthesis
    (h : Takes step .forward signed p (.symbol .rightParenthesis) cat q) :
    q.expected = .following .forward .closing := by
  have hexit : ∃ cat, Takes step .forward signed p (.symbol Direction.forward.exitSymbol) cat q :=
    ⟨cat, h⟩
  obtain ⟨-, depth, -, rfl⟩ := takes_exit_iff.mp hexit
  exact pushEmpty_expected _

/-- An operator where no sign may stand leaves one token. -/
lemma Takes.eq_of_operator {op : Operator} (h : Takes step .forward signed p (.symbol op) cat q)
    (hop : op.isArithmetic) (hsign : p.expected.sign = false) :
    q = pushBinary step ⟨.following .forward .operator, p.depth, p.tokens⟩ op := by
  have htakes := (takes_arithmetic_iff hop).mp ⟨cat, h⟩
  rw [if_neg (by simp [hsign])] at htakes
  exact htakes.2

/-- An opening parenthesis leaves no token. -/
lemma Takes.eq_of_leftParenthesis
    (h : Takes step .forward signed p (.symbol .leftParenthesis) cat q) :
    q = ⟨.following .forward .opening, p.depth + 1, p.tokens⟩ := by
  have hentry : ∃ cat, Takes step .forward signed p (.symbol Direction.forward.entrySymbol) cat q :=
    ⟨cat, h⟩
  exact (takes_entry_iff.mp hentry).2

/-- A derived sum is read to its end with all parentheses closed and the tokens balanced. -/
lemma reads_of_derives (step : Int) {e : Tree} (h : Derives .sum ls e) :
    ∃ q, Reads step .forward (.start .forward) ls [] q ∧ q.depth = 0 ∧
      Token.balanced q.tokens.reverse := by
  obtain ⟨cat, -, hreads⟩ := h.reads_forward step (p := .start .forward) rfl rfl rfl []
  refine ⟨_, hreads, rfl, ?_⟩
  simpa [Progress.start] using e.balanced_infixOrder step 0

/-- A row with two gaps is read to its end, too: the operator and the numeral that have been left
out make no difference to the other lexemes, and together none to the balance. -/
theorem reads_of_gapped (step : Int) (h : Gapped ls) :
    ∃ q, Reads step .forward (.start .forward) ls [] q ∧ q.depth = 0 ∧
      Token.balanced q.tokens.reverse := by
  obtain ⟨x, y, op, t, hop, rfl, e, he⟩ := h
  obtain ⟨f, hreads, hdepth, hbalanced⟩ := reads_of_derives step he
  obtain ⟨p, hx, hrest⟩ := Reads.append_iff.mp hreads
  obtain ⟨_, q, hclose, hrest⟩ := Reads.cons_iff.mp hrest
  obtain ⟨_, _, hoperator, hrest⟩ := Reads.cons_iff.mp hrest
  obtain ⟨_, _, hopen, hrest⟩ := Reads.cons_iff.mp hrest
  obtain ⟨r, hy, hlast⟩ := Reads.append_iff.mp hrest
  obtain ⟨_, _, hnumeral, hend⟩ := Reads.cons_iff.mp hlast
  obtain rfl := Reads.nil_iff.mp hend
  have hclosing := hclose.expected_of_rightParenthesis
  obtain rfl := hoperator.eq_of_operator hop (by rw [hclosing]; rfl)
  obtain rfl := hopen.eq_of_leftParenthesis
  obtain ⟨-, k, hk, rfl⟩ := takes_numeral_iff.mp ⟨_, hnumeral⟩
  obtain ⟨v, rfl⟩ := exists_number_of_ofNumeral hk
  obtain ⟨new, hnew, hframe⟩ := hy.frame
  -- The opening parenthesis is taken directly behind the closing one, and all others as before.
  have hopening : q.expected.opening := by rw [hclosing]; rfl
  have hy' := (hframe q.tokens).forward_rest []
  have hgap : Reads step .forward p (.symbol .rightParenthesis :: .symbol .leftParenthesis :: y) []
      ⟨r.expected, r.depth, new ++ q.tokens⟩ :=
    .cons hclose (.cons (.opening_forward hopening) hy')
  have hreads' := Reads.append_iff.mpr ⟨p, hx.forward_rest _, hgap⟩
  refine ⟨⟨r.expected, r.depth, new ++ q.tokens⟩, hreads', hdepth, ?_⟩
  rw [Token.balanced_eq_of_perm (List.reverse_perm _)] at hbalanced ⊢
  simp only [Token.balanced, hnew, pushBinary, push, Token.binaryAt, Token.consumed_cons,
    Token.consumed_append, List.length_append, List.length_cons, Token.arity,
    beq_iff_eq] at hbalanced ⊢
  omega

end Progress

/-! ## Acceptance -/

open Lexeme Progress

/-- A text is parsed into at least one token if it is read to its end with all parentheses closed
and the tokens balanced. -/
lemma exists_parse_forward_iff {t : Text} : (∃ ts, parse .forward t = .ok ts ∧ ts ≠ []) ↔
    ∃ q, Reads Settings.standard.nestingStep .forward (.start .forward)
      (visible (split .forward t)) [] q ∧ q.depth = 0 ∧ Token.balanced q.tokens.reverse := by
  simp only [parse_forward_eq_ok_iff]
  constructor
  · rintro ⟨ts, ⟨q, hreads, hdepth, horder⟩, hne⟩
    exact ⟨q, hreads, hdepth, (order_eq_some_iff.mp ⟨horder, hne⟩).1⟩
  · rintro ⟨q, hreads, hdepth, hbalanced⟩
    obtain ⟨horder, hne⟩ := order_eq_some_iff.mpr ⟨hbalanced, rfl⟩
    exact ⟨_, ⟨q, hreads, hdepth, horder⟩, hne⟩

/-- A text that is read to its end spells its visible lexemes, and these are lexemes of the
grammar. -/
lemma spells_of_reads {step : Int} {t : Text} {q : Progress}
    (h : Reads step .forward (.start .forward) (visible (split .forward t)) [] q) :
    Spells (visible (split .forward t)) t ∧ ∀ l ∈ visible (split .forward t), IsTerminal l := by
  have hknown := h.isKnown fun l hl => hl
  exact ⟨spells_visible_split hknown, isTerminal_of_mem_visible hknown⟩

/-- In a derivable row no group begins directly behind another one. -/
lemma not_derivable_sideBySide (x y : List Lexeme) : ¬ Derivable .sum (sideBySide x y) := by
  rintro ⟨e, he⟩
  let Apart (l m : Lexeme) : Prop :=
    ¬ (l = .symbol .rightParenthesis ∧ m = .symbol .leftParenthesis)
  have hoperator : ∀ op : Operator, op.isArithmetic → ∀ m,
      Apart m (.symbol op) ∧ Apart (.symbol op) m := by
    rintro op hop m
    constructor
    · rintro ⟨-, h⟩
      obtain rfl := Lexeme.symbol.inj h
      exact absurd hop (by decide)
    · rintro ⟨h, -⟩
      obtain rfl := Lexeme.symbol.inj h
      exact absurd hop (by decide)
  have hchain := he.isChain_of (R := Apart) (by simp [Apart]) (by simp [Apart]) hoperator
  obtain ⟨-, hmiddle, -⟩ := List.isChain_append.mp hchain
  exact (List.isChain_cons_cons.mp hmiddle).1 ⟨rfl, rfl⟩

/-- The lexemes of a row with two gaps are lexemes of the grammar, and no two of them that stand
side by side are numerals. -/
lemma isTerminal_and_isChain_of_gapped {ls : List Lexeme} (h : Gapped ls) :
    (∀ l ∈ ls, IsTerminal l) ∧ ls.IsChain Apart := by
  obtain ⟨x, y, op, t, hop, rfl, e, he⟩ := h
  have hchain := he.isChain
  simp only [joinedBy, isChain_symbol_append, isChain_symbol_cons] at hchain
  obtain ⟨hx, hy⟩ := hchain
  constructor
  · intro l hl
    refine he.isTerminal l ?_
    simp only [sideBySide, joinedBy, List.mem_append, List.mem_cons] at hl ⊢
    tauto
  · rw [sideBySide, isChain_symbol_append, isChain_symbol_cons]
    exact ⟨hx, (List.isChain_append.mp hy).1⟩

/-- A text of the grammar has no gaps. -/
lemma not_isGapped_of_isSentence {t : Text} (h : IsSentence t) : ¬ IsGapped t := by
  rintro ⟨ms, hgapped, hms⟩
  obtain ⟨ls, ⟨e, he⟩, hls⟩ := h
  obtain ⟨hterminal, hchain⟩ := isTerminal_and_isChain_of_gapped hgapped
  obtain ⟨hsplit, -⟩ := hls.visible_split he.isTerminal he.isChain
  obtain ⟨hsplit', -⟩ := hms.visible_split hterminal hchain
  obtain rfl := hsplit.symm.trans hsplit'
  obtain ⟨x, y, -, -, -, rfl, -⟩ := hgapped
  exact not_derivable_sideBySide x y ⟨e, he⟩

/-- From the left, a text is parsed into at least one token exactly if it is a sentence or has two
gaps, and no text is both. -/
theorem parse_forward_accepts_iff {t : Text} : (∃ ts, parse .forward t = .ok ts ∧ ts ≠ []) ↔
    Xor (IsSentence t) (IsGapped t) := by
  rw [exists_parse_forward_iff]
  constructor
  · rintro ⟨q, hreads, hdepth, hbalanced⟩
    obtain ⟨hspells, hterminal⟩ := spells_of_reads hreads
    obtain ⟨j, haccounts⟩ := hreads.accounts hterminal
    rcases haccounts.derivable_or_gapped hdepth hbalanced with hsum | hgapped
    · have hsentence : IsSentence t := ⟨_, hsum, hspells⟩
      exact .inl ⟨hsentence, not_isGapped_of_isSentence hsentence⟩
    · have hgaps : IsGapped t := ⟨_, hgapped, hspells⟩
      exact .inr ⟨hgaps, fun hsentence => not_isGapped_of_isSentence hsentence hgaps⟩
  · rintro (⟨⟨ls, ⟨e, he⟩, hls⟩, -⟩ | ⟨⟨ls, hgapped, hls⟩, -⟩)
    · obtain ⟨hsplit, -⟩ := hls.visible_split he.isTerminal he.isChain
      rw [hsplit]
      exact reads_of_derives _ he
    · obtain ⟨hterminal, hchain⟩ := isTerminal_and_isChain_of_gapped hgapped
      obtain ⟨hsplit, -⟩ := hls.visible_split hterminal hchain
      rw [hsplit]
      exact reads_of_gapped _ hgapped

/-- The text `(1)(2)+` is parsed into tokens and is no sentence: two operands stand side by side,
and it ends in an operator. -/
theorem parse_forward_accepts_juxtaposed :
    (∃ ts, parse .forward ['(', '1', ')', '(', '2', ')', '+'] = .ok ts ∧ ts ≠ []) ∧
      ¬ IsSentence ['(', '1', ')', '(', '2', ')', '+'] := by
  constructor
  · exact ⟨[.number _ 0, .number _ 0, .binary .plus 0], rfl, by simp⟩
  · rintro ⟨ls, ⟨e, he⟩, hls⟩
    obtain ⟨rfl, -⟩ := hls.visible_split he.isTerminal he.isChain
    exact not_derivable_sideBySide [.symbol .leftParenthesis, .numeral ['1']]
      [.numeral ['2'], .symbol .rightParenthesis, .symbol .plus] ⟨e, he⟩

end Reckoner
