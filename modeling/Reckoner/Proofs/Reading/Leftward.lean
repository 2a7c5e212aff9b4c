import Reckoner.Proofs.Evaluability
import Reckoner.Proofs.Sentences

/-!
# What is read from the right

From the right only sums of the grammar are complete: a run that leaves no parenthesis open and ends
before an operand has read a derivable row, and has the tokens of its tree (`Reads.exists_derives`).

`Unopened` is the invariant: behind every closing parenthesis whose partner is still to come there
is a row that completes any sum in front of it, and in front of the innermost one there is what the
open slots tell.  The tokens follow from this, since a tree is read in one way only
(`Reads.eq_of_reads`).  What stands further left than the row has a say only in whether its first
lexeme is a sign (`Reads.change_rest`).
-/

namespace Reckoner

open Lexeme Grammar

namespace Progress

variable {step : Int} {signed signed' : Bool} {p q q' : Progress} {l : Lexeme}
  {cat cat' c : Category} {ls rest rest' : List Lexeme}

/-! ## What stands further left -/

/-- White characters are not taken. -/
lemma Takes.isWhite_eq_false {dir : Direction} (h : Takes step dir signed p l cat q) :
    l.isWhite = false := by
  cases h <;> rfl

/-- What is taken without being an operator is taken as well where a sign may stand. -/
lemma Takes.of_operator (h : Takes step .backward signed p l cat q)
    (hoperator : q.expected.operator) : Takes step .backward true p l cat q := by
  cases h with
  | number h hk => exact .number h hk
  | sign h hop _ => exact .sign h hop rfl
  | operator => exact absurd hoperator Bool.false_ne_true
  | enter h => exact .enter h
  | leave h hdepth => exact .leave h hdepth

/-- A lexeme that can be no sign is taken wherever it stands. -/
lemma Takes.of_not_isSign (h : Takes step .backward signed p l cat q)
    (hl : ∀ op, l = .symbol op → op.isSign = false) (signed' : Bool) :
    Takes step .backward signed' p l cat q := by
  cases h with
  | number h hk => exact .number h hk
  | @sign op _ hop _ => exact absurd hop (by simp [hl op rfl])
  | @operator op h hop _ => exact .operator h hop fun hsign => absurd hsign (by simp [hl op rfl])
  | enter h => exact .enter h
  | leave h hdepth => exact .leave h hdepth

/-- Whether a sign may stand to the right of a row depends on the nearest visible lexeme alone. -/
lemma admitSign_cons {m : Lexeme} (hm : m.isWhite = false) (ls : List Lexeme) :
    admitSign (m :: ls) = admitSign [m] := by
  cases m <;> first | rfl | simp [Lexeme.isWhite] at hm

/-- From the right, a run depends on the lexemes further left only by the last one that it takes. -/
lemma Reads.change_rest (h : Reads step .backward p ls rest q)
    (hlast : ∀ {r m cat}, ls.getLast? = some m → Takes step .backward (admitSign rest) r m cat q →
      Takes step .backward (admitSign rest') r m cat q) : Reads step .backward p ls rest' q := by
  induction h with
  | nil => exact .nil
  | @cons p r q l ls rest cat head tail ih =>
    cases ls with
    | nil =>
      obtain rfl := Reads.nil_iff.mp tail
      exact .cons (hlast rfl head) .nil
    | cons m ls =>
      obtain ⟨_, _, hm, -⟩ := Reads.cons_iff.mp tail
      have hwhite := hm.isWhite_eq_false
      have htail := ih fun hmem => hlast (by simpa using hmem)
      rw [Direction.admitSign, List.cons_append, admitSign_cons hwhite] at head
      rw [← admitSign_cons hwhite (ls ++ rest')] at head
      exact .cons head htail

/-! ## Runs are determined -/

/-- What is taken from the right determines the reader after it. -/
lemma Takes.eq_of_takes (h : Takes step .backward signed p l cat q)
    (h' : Takes step .backward signed p l cat' q') : q' = q := by
  obtain ⟨left, hleft⟩ : ∃ left, admitSign left = signed := by
    cases signed with
    | true => exact ⟨[], rfl⟩
    | false => exact ⟨[.numeral []], rfl⟩
  rw [← hleft] at h h'
  have hread := (readBackward_eq_ok_some_iff h.isWhite_eq_false 0 left).mpr ⟨_, h⟩
  have hread' := (readBackward_eq_ok_some_iff h.isWhite_eq_false 0 left).mpr ⟨_, h'⟩
  rw [hread] at hread'
  exact (Option.some.inj (Except.ok.inj hread')).symm

/-- A run from the right determines the reader at its end. -/
lemma Reads.eq_of_reads (h : Reads step .backward p ls rest q)
    (h' : Reads step .backward p ls rest q') : q' = q := by
  induction h with
  | nil => exact Reads.nil_iff.mp h'
  | cons head _ ih =>
    obtain ⟨_, r, head', tail'⟩ := Reads.cons_iff.mp h'
    obtain rfl := head.eq_of_takes head'
    exact ih tail'

end Progress

/-! ## Closing parentheses without partners -/

namespace Grammar

/-- The rows that complete any sum in front of them to a sum. -/
def Trails (ls : List Lexeme) : Prop := ∀ ms, Derivable .sum ms → Derivable .sum (ms ++ ls)

/-- What has been read in front of the innermost closing parenthesis, by the slots that are open. -/
def Behind (e : Expectation) (ls : List Lexeme) : Prop :=
  if e.operator then Derivable .sum ls else if e.emptyGroup then ls = [] else Trails ls

/-- The rows with `depth` closing parentheses without partners: what comes behind each of them
completes a sum, and what comes in front of the innermost one is in `P`. -/
def Unopened (P : List Lexeme → Prop) : Nat → List Lexeme → Prop
  | 0, ls => P ls
  | depth + 1, ls => ∃ inner outer, ls = inner ++ .symbol .rightParenthesis :: outer ∧
      P inner ∧ Unopened Trails depth outer

variable {P Q : List Lexeme → Prop} {depth : Nat} {ls : List Lexeme} {op : Operator}

/-- What is put in front of a row belongs to its innermost group. -/
lemma Unopened.prepend (h : Unopened P depth ls) (ms : List Lexeme)
    (hPQ : ∀ inner, P inner → Q (ms ++ inner)) : Unopened Q depth (ms ++ ls) := by
  cases depth with
  | zero => exact hPQ ls h
  | succ depth =>
    obtain ⟨inner, outer, rfl, hinner, houter⟩ := h
    exact ⟨ms ++ inner, outer, by simp, hPQ inner hinner, houter⟩

/-- What is said of the innermost group may be weakened. -/
lemma Unopened.imp (h : Unopened P depth ls) (hPQ : ∀ inner, P inner → Q inner) :
    Unopened Q depth ls :=
  h.prepend [] hPQ

/-- A group is put in front of a row when its opening parenthesis is read. -/
lemma Unopened.leave (h : Unopened P (depth + 1) ls) (hP : ∀ inner, P inner →
      Derivable .sum (.symbol .leftParenthesis :: (inner ++ [.symbol .rightParenthesis]))) :
    Unopened (Derivable .sum) depth (.symbol .leftParenthesis :: ls) := by
  obtain ⟨inner, outer, rfl, hinner, houter⟩ := h
  have hgroup := hP inner hinner
  simpa using houter.prepend _ fun _ htrails => htrails _ hgroup

/-- Nothing has to follow a sum. -/
lemma trails_nil : Trails [] := by
  intro ms hms
  rwa [List.append_nil]

/-- A binary operator and a sum complete any sum in front of them. -/
lemma Derivable.trails (h : Derivable .sum ls) (hop : op.isArithmetic) :
    Trails (.symbol op :: ls) := by
  intro ms hms
  exact hms.joinSums hop h

/-- Where no operator may stand, what has been read completes a sum. -/
lemma Behind.trails {e : Expectation} (h : Behind e ls) (he : e.operator = false) : Trails ls := by
  rw [Behind, if_neg (by simp [he])] at h
  split at h
  · rw [h]
    exact trails_nil
  · exact h

/-- Where an operator may stand, what has been read is a sum. -/
lemma Behind.derivable {e : Expectation} (h : Behind e ls) (he : e.operator) :
    Derivable .sum ls := by
  rwa [Behind, if_pos he] at h

end Grammar

namespace Progress

variable {step : Int} {signed : Bool} {p q : Progress} {l : Lexeme} {cat c : Category}
  {ls rest : List Lexeme}

/-- What is taken from the right keeps the invariant. -/
theorem Takes.unopened (h : Takes step .backward signed p l cat q)
    (hp : p.expected = .following .backward c) (hl : IsTerminal l)
    (hrow : Unopened (Behind p.expected) p.depth ls) :
    Unopened (Behind q.expected) q.depth (l :: ls) := by
  have hq := h.expected_eq
  rw [hp] at hrow
  cases h with
  | @number t k h hk =>
    have hoperand : (Expectation.following .backward c).operator = false := by
      simpa [hp, Expectation.number_following] using h
    have hnumeral : Derivable .sum [.numeral t] :=
      (Derivable.promote .unary ⟨_, .numeral hl⟩).of_unary .sum (by decide)
    exact hrow.prepend [.numeral t] fun inner hinner =>
      hinner.trails hoperand _ hnumeral
  | @sign op h hop _ =>
    have hoperator : (Expectation.following .backward c).operator := by
      simpa [hp, Expectation.sign_following_backward] using h
    rw [hq, pushSign_depth]
    exact hrow.prepend [.symbol op] fun inner hinner =>
      (hinner.derivable hoperator).sign hop
  | @operator op h hop _ =>
    have hoperator : (Expectation.following .backward c).operator := by simpa [hp] using h
    exact hrow.prepend [.symbol op] fun inner hinner =>
      (hinner.derivable hoperator).trails hop
  | enter h =>
    have hoperand : (Expectation.following .backward c).operator = false := by
      simpa [hp, Expectation.closing_following_backward] using h
    exact ⟨[], ls, rfl, rfl, hrow.imp fun inner hinner => hinner.trails hoperand⟩
  | leave h hdepth =>
    rw [hp] at h
    rw [hdepth] at hrow
    rw [hq, pushEmpty_depth]
    refine hrow.leave fun inner hinner => ?_
    have hatom : Derivable .atom
        (.symbol .leftParenthesis :: (inner ++ [.symbol .rightParenthesis])) := by
      cases hempty : (Expectation.following .backward c).emptyGroup with
      | false =>
        have hoperator : (Expectation.following .backward c).operator := by
          simpa [hempty, Expectation.opening_following_backward] using h
        obtain ⟨e, he⟩ := hinner.derivable hoperator
        exact ⟨_, .group he⟩
      | true =>
        rw [Behind, if_neg (by simp [Expectation.operator_eq_false_of_emptyGroup hempty]),
          if_pos hempty] at hinner
        subst hinner
        exact ⟨_, .empty⟩
    exact (hatom.promote .unary).of_unary .sum (by decide)

/-- A run from the right keeps the invariant. -/
lemma Reads.unopened (h : Reads step .backward (.start .backward) ls rest q)
    (hls : ∀ l ∈ ls, IsTerminal l) : Unopened (Behind q.expected) q.depth ls.reverse := by
  let Kept (row : List Lexeme) (p : Progress) : Prop :=
    (∀ l ∈ row, IsTerminal l) → (∃ c, p.expected = .following .backward c) ∧
      Unopened (Behind p.expected) p.depth row.reverse
  have hstart : Kept [] (.start .backward) :=
    fun _ => ⟨⟨.operator, Expectation.start_eq .backward⟩, trails_nil⟩
  have hkept : Kept ls q := by
    refine h.invariant (I := Kept) ?_ [] hstart
    intro row p signed l cat q hp htakes hrow
    have hbefore : ∀ m ∈ row, IsTerminal m := fun m hm => hrow m (List.mem_append_left _ hm)
    have hl : IsTerminal l := hrow l (by simp)
    obtain ⟨⟨c, hc⟩, hunopened⟩ := hp hbefore
    refine ⟨⟨cat, htakes.expected_eq⟩, ?_⟩
    rw [List.reverse_append]
    exact htakes.unopened hc hl hunopened
  exact (hkept hls).2

/-- From the right, a run that leaves no parenthesis open and ends before an operand has read a
derivable row, and has the tokens of its tree. -/
theorem Reads.exists_derives (h : Reads step .backward (.start .backward) ls rest q)
    (hls : ∀ l ∈ ls, IsTerminal l) (hoperator : q.expected.operator) (hdepth : q.depth = 0) :
    ∃ e, Derives .sum ls.reverse e ∧ q.tokens = e.infixOrder step 0 := by
  have hunopened := h.unopened hls
  rw [hdepth] at hunopened
  obtain ⟨e, he⟩ : Derivable .sum ls.reverse := Behind.derivable hunopened hoperator
  refine ⟨e, he, ?_⟩
  have hend : Reads step .backward (.start .backward) ls [] q :=
    h.change_rest fun _ htakes => htakes.of_operator hoperator
  have htree : Reads step .backward (.start .backward) ls.reverse.reverse []
      ⟨.beforeOperand, 0, e.infixOrder step 0 ++ []⟩ := he.reads_backward rfl rfl rfl
  rw [List.reverse_reverse, List.append_nil] at htree
  rw [← hend.eq_of_reads htree]

end Progress

end Reckoner
