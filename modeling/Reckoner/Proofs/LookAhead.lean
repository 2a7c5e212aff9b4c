import Mathlib.Algebra.Ring.Int.Defs
import Reckoner.Proofs.Captures

/-!
# Looking ahead

At a position in front of a closing parenthesis, look-ahead takes in a whole run of closing
parentheses before any partner is known.  What is found then covers what is found without it, or
nothing is found at all, and the latter depends on the text in front alone: its lexemes, up to the
first one that belongs to no expression, have to open as many parentheses as the run closes
(`extract_ahead_iff`).

With `k` parentheses that wait already, the scan goes over what it takes in with none that waits
(`Span.Captures.reachLeft_add`), and it goes on where it would have stopped.  From there it counts
down at opening parentheses and up at closing ones.  It is left with none exactly if the count comes
to zero at the end, or would fall below zero before (`Span.reachLeft_snd_eq_zero_iff`): there an
opening parenthesis without a partner stops the scan.
-/

namespace Reckoner

open Lexeme

namespace Lexeme

/-- What a lexeme opens: one parenthesis, or one less than none if it closes one. -/
def opened : Lexeme → Int
  | symbol .leftParenthesis => 1
  | symbol .rightParenthesis => -1
  | _ => 0

/-- The opening parentheses of a row, less its closing ones. -/
def surplus (row : List Lexeme) : Int := (row.map opened).sum

@[simp] lemma surplus_nil : surplus [] = 0 := rfl

@[simp] lemma surplus_cons (l : Lexeme) (row : List Lexeme) :
    surplus (l :: row) = l.opened + surplus row := rfl

/-- From the right, a row has partners for `k` closing parentheses behind it: in all it opens `k`
parentheses more than it closes, or its lexemes up to some place open even more. -/
def Opens (k : Int) (row : List Lexeme) : Prop :=
  surplus row = k ∨ ∃ front, front <+: row ∧ k < surplus front

/-- Behind its last lexeme, a row has partners for all but those that the lexeme opens. -/
lemma opens_cons {k : Int} {l : Lexeme} {row : List Lexeme} :
    Opens k (l :: row) ↔ k < 0 ∨ Opens (k - l.opened) row := by
  simp only [Opens, surplus_cons, List.prefix_cons_iff]
  constructor
  · rintro (hall | ⟨front, rfl | ⟨front, rfl, hfront⟩, hlt⟩)
    · exact .inr (.inl (by omega))
    · exact .inl hlt
    · rw [surplus_cons] at hlt
      exact .inr (.inr ⟨front, hfront, by omega⟩)
  · rintro (hneg | hall | ⟨front, hfront, hlt⟩)
    · exact .inr ⟨[], .inl rfl, hneg⟩
    · exact .inl (by omega)
    · refine .inr ⟨l :: front, .inr ⟨front, rfl, hfront⟩, ?_⟩
      rw [surplus_cons]
      omega

/-- A row that has nothing to open has partners for none. -/
lemma opens_nil {k : Nat} : Opens k [] ↔ k = 0 := by
  simp only [Opens, List.prefix_nil, exists_eq_left, surplus_nil]
  omega

/-- Where fewer than none are asked for, nothing has to be opened. -/
lemma opens_of_neg {k : Int} (hk : k < 0) (row : List Lexeme) : Opens k row :=
  .inr ⟨[], List.nil_prefix, hk⟩

end Lexeme

/-- A text in front of another one makes what is taken of it at most as much longer as it is
itself. -/
lemma length_takeWhile_append_le {α : Type} (p : α → Bool) (xs ys : List α) :
    ((xs ++ ys).takeWhile p).length ≤ xs.length + (ys.takeWhile p).length := by
  rw [List.takeWhile_append]
  split
  · rw [List.length_append]
  · exact (List.takeWhile_prefix p).length_le.trans (Nat.le_add_right _ _)

namespace Span

variable {blanks : Bool} {waiting left : Nat} {row : List Lexeme} {t u w : Text} {pos : Int}

/-- Does the lexeme belong to expressions, whatever parentheses there are? -/
def admits (blanks : Bool) : Lexeme → Bool
  | .numeral _ | .symbol _ => true
  | .white c => blanks && Text.isBlank c
  | .foreign _ => false

/-- A lexeme that belongs to expressions is taken in, and as many parentheses less wait as it opens;
but where none waits, an opening parenthesis is not taken in. -/
lemma takeIn_of_admits {l : Lexeme} (h : admits blanks l) (waiting : Nat) :
    takeIn blanks waiting l = none ∧ waiting = 0 ∧ l.opened = 1 ∨
      ∃ next : Nat, takeIn blanks waiting l = some next ∧ (next : Int) = waiting - l.opened := by
  cases l with
  | numeral w => exact .inr ⟨waiting, rfl, (Int.sub_zero _).symm⟩
  | white c => exact .inr ⟨waiting, if_pos h, (Int.sub_zero _).symm⟩
  | foreign c => cases h
  | symbol op =>
    cases op with
    | plus | minus | multiply | divide | intDivide =>
      exact .inr ⟨waiting, rfl, (Int.sub_zero _).symm⟩
    | rightParenthesis => exact .inr ⟨waiting + 1, rfl, by simp [opened]⟩
    | leftParenthesis =>
      by_cases hnone : waiting = 0
      · exact .inl ⟨if_pos hnone, hnone, rfl⟩
      · refine .inr ⟨waiting - 1, if_neg hnone, ?_⟩
        simp only [opened]
        omega

/-- What belongs to no expression is not taken in. -/
lemma takeIn_of_not_admits {l : Lexeme} (h : admits blanks l = false) :
    takeIn blanks waiting l = none := by
  cases l with
  | numeral | symbol => cases h
  | white c => exact if_neg (by simpa [admits] using h)
  | foreign c => rfl

/-- In the end no parenthesis waits exactly if the lexemes up to the first one that belongs to no
expression have partners for those that have been waiting. -/
theorem reachLeft_snd_eq_zero_iff :
    (reachLeft blanks waiting row).2 = 0 ↔ Opens waiting (row.takeWhile (admits blanks)) := by
  induction row generalizing waiting with
  | nil => exact opens_nil.symm
  | cons l row ih =>
    rw [reachLeft]
    by_cases hl : admits blanks l
    · rw [List.takeWhile_cons_of_pos hl, opens_cons]
      rcases takeIn_of_admits hl waiting with ⟨htaken, rfl, hopened⟩ | ⟨next, htaken, hnext⟩
      · -- An opening parenthesis without a partner stops the scan.
        rw [htaken, hopened]
        exact iff_of_true rfl (.inr (opens_of_neg (by decide) _))
      · rw [htaken, ← hnext, ← ih]
        have hnonneg : ¬ (waiting : Int) < 0 := by omega
        simp only [hnonneg, false_or]
    · rw [List.takeWhile_cons_of_neg hl, takeIn_of_not_admits (Bool.not_eq_true _ ▸ hl)]
      exact opens_nil.symm

/-! ## Going on with parentheses that wait -/

/-- A lexeme that is taken in is also taken in where more parentheses wait. -/
lemma takeIn_add {l : Lexeme} (h : takeIn blanks waiting l = some left) (k : Nat) :
    takeIn blanks (waiting + k) l = some (left + k) := by
  have hadmits : admits blanks l := by
    by_contra hnot
    rw [takeIn_of_not_admits (Bool.not_eq_true _ ▸ hnot)] at h
    cases h
  rcases takeIn_of_admits hadmits waiting with ⟨hnone, -⟩ | ⟨next, hnext, hsum⟩
  · cases hnone.symm.trans h
  · obtain rfl := Option.some.inj (hnext.symm.trans h)
    rcases takeIn_of_admits hadmits (waiting + k) with ⟨-, hzero, hopened⟩ | ⟨more, hmore, hsum'⟩
    · omega
    · rw [hmore]
      congr 1
      omega

/-- A row that is taken in is also taken in where more parentheses wait. -/
lemma foldlM_takeIn_add (h : row.foldlM (takeIn blanks) waiting = some left) (k : Nat) :
    row.foldlM (takeIn blanks) (waiting + k) = some (left + k) := by
  induction row generalizing waiting with
  | nil =>
    obtain rfl := Option.some.inj h
    rfl
  | cons l row ih =>
    obtain ⟨between, htaken, hrest⟩ := Option.bind_eq_some_iff.mp h
    rw [List.foldlM_cons, takeIn_add htaken k]
    exact ih hrest

/-- What is taken in where no parenthesis waits is passed over where some wait. -/
lemma Captures.reachLeft_add (h : Captures blanks u w row) (k : Nat) :
    reachLeft blanks k (split .backward (u ++ w).reverse) =
      (w.length + (reachLeft blanks k (split .backward u.reverse)).1,
        (reachLeft blanks k (split .backward u.reverse)).2) := by
  have htaken := foldlM_takeIn_add h.foldlM_eq k
  rw [Nat.zero_add] at htaken
  rw [h.split_eq, reachLeft_append htaken, ← width_reverse_joined, h.joined_eq]

/-! ## Closing parentheses and blanks -/

/-- Closing parentheses and wanted blanks are taken in, and then the former wait too. -/
lemma foldlM_takeIn_run {run : Text} (hrun : ∀ c ∈ run, c = ')' ∨ (blanks && Text.isBlank c)) :
    (run.map ofChar).foldlM (takeIn blanks) waiting = some (waiting + run.count ')') := by
  induction run generalizing waiting with
  | nil => rfl
  | cons c run ih =>
    obtain ⟨hc, hrest⟩ := List.forall_mem_cons.mp hrun
    have htaken : takeIn blanks waiting (ofChar c) = some (waiting + [c].count ')') := by
      rcases hc with rfl | hblank
      · rfl
      · obtain ⟨-, hc⟩ := Bool.and_eq_true_iff.mp hblank
        obtain ⟨-, -, hne⟩ := Text.isPart_and_ne_of_isBlank hc
        obtain ⟨-, hchar⟩ := isPart_and_ofChar_of_isWhite (Text.isWhite_of_isBlank hc)
        rw [hchar, List.count_singleton, if_neg (by simpa using hne)]
        exact if_pos hblank
    rw [List.map_cons, List.foldlM_cons, htaken]
    refine (ih hrest).trans ?_
    rw [Nat.add_assoc, ← List.count_append, List.singleton_append]

/-- Closing parentheses and wanted blanks at the end of a text are taken in first. -/
lemma reachLeft_append_run {run : Text} (hrun : ∀ c ∈ run, c = ')' ∨ (blanks && Text.isBlank c))
    (x : Text) (k : Nat) :
    reachLeft blanks k (split .backward (x ++ run).reverse) =
      (run.length + (reachLeft blanks (k + run.count ')') (split .backward x.reverse)).1,
        (reachLeft blanks (k + run.count ')') (split .backward x.reverse)).2) := by
  have hturned : ∀ c ∈ run.reverse, c = ')' ∨ (blanks && Text.isBlank c) := by simpa using hrun
  have hpart : ∀ c ∈ run.reverse, Numeral.isPart c = false := by
    intro c hc
    rcases hturned c hc with rfl | hblank
    · rfl
    · exact (Text.isPart_and_ne_of_isBlank (Bool.and_eq_true_iff.mp hblank).2).1
  have htaken : (run.reverse.map ofChar).foldlM (takeIn blanks) k = some (k + run.count ')') := by
    rw [← List.count_reverse]
    exact foldlM_takeIn_run hturned
  rw [List.reverse_append, split_chars_append .backward hpart, reachLeft_append htaken,
    width_map_ofChar, List.length_reverse]

/-! ## What look-ahead finds -/

/-- The closing parentheses that look-ahead takes in behind a position. -/
def closings (t : Text) (blanks : Bool) (pos : Nat) : Nat :=
  (t.slice pos (lookAhead t blanks pos)).count ')'

/-- Look-ahead takes in closing parentheses and wanted blanks, or nothing. -/
lemma exists_run (blanks : Bool) (x v : Text) :
    ∃ run y, v = run ++ y ∧ edge (x ++ v) x.length true blanks = (x ++ run).length ∧
      closings (x ++ v) blanks x.length = run.count ')' ∧
      ∀ c ∈ run, c = ')' ∨ (blanks && Text.isBlank c) := by
  obtain ⟨run, y, rfl, hedge, hrun⟩ : ∃ run y, v = run ++ y ∧
      edge (x ++ v) x.length true blanks = (x ++ run).length ∧
      ∀ c ∈ run, c = ')' ∨ (blanks && Text.isBlank c) := by
    by_cases hat : (x ++ v).at? x.length = some ')'
    · obtain ⟨z, run, y, htext, hpos, hedge, -, hrun⟩ := exists_run_of_at? blanks hat
      rw [List.append_assoc] at htext
      obtain ⟨rfl, rfl⟩ := List.append_inj htext (Int.ofNat_inj.mp hpos)
      exact ⟨_, y, rfl, hedge, List.forall_mem_cons.mpr ⟨.inl rfl, hrun⟩⟩
    · exact ⟨[], v, rfl, by rw [List.append_nil, edge_eq_self fun _ => hat], List.forall_mem_nil _⟩
  refine ⟨run, y, rfl, hedge, ?_, hrun⟩
  have hstop : lookAhead (x ++ (run ++ y)) blanks x.length = (x ++ run).length := hedge
  rw [closings, hstop, Text.slice_natCast, ← List.append_assoc, List.take_left, List.drop_left]

/-- The lexemes at the end of a text, from the right, up to the first one that belongs to no
expression. -/
def trail (blanks : Bool) (t : Text) : List Lexeme :=
  (split .backward t.reverse).takeWhile (admits blanks)

/-- The closing parentheses that look-ahead takes in behind a span have partners in front of it. -/
def HasPartners (blanks : Bool) (t : Text) (s : Span) : Prop :=
  Opens (closings t blanks s.stop) (trail blanks (t.take s.start))

/-- The blanks at the beginning of what is taken in make no difference to the partners. -/
lemma Captures.hasPartners_iff (h : Captures blanks u w row) (v : Text) :
    HasPartners blanks (u ++ w ++ v)
        ⟨u.length + ((w ++ v).takeWhile Text.isBlank).length, (u ++ w).length⟩ ↔
      (reachLeft blanks (closings (u ++ w ++ v) blanks (u ++ w).length)
        (split .backward u.reverse)).2 = 0 := by
  have hgap : ∀ c ∈ (w ++ v).takeWhile Text.isBlank, c = ')' ∨ (blanks && Text.isBlank c) :=
    fun c hc => .inr (h.and_isBlank_of_mem c hc)
  have hnone : ((w ++ v).takeWhile Text.isBlank).count ')' = 0 := by
    refine List.count_eq_zero.mpr fun hmem => ?_
    exact absurd (List.mem_takeWhile_imp hmem) (by decide)
  have htake : (u ++ w ++ v).take (u.length + ((w ++ v).takeWhile Text.isBlank).length) =
      u ++ (w ++ v).takeWhile Text.isBlank := by
    rw [List.append_assoc, List.take_length_add_append, Numeral.take_length_takeWhile]
  rw [HasPartners, trail, htake, ← reachLeft_snd_eq_zero_iff, reachLeft_append_run hgap, hnone,
    Nat.add_zero]

/-- What is found with look-ahead covers what is taken in without it, and then all parentheses that
are taken in behind the position have partners. -/
lemma Captures.covers {run y : Text} {s : Span} (h : Captures blanks u w row)
    (hrun : ∀ c ∈ run, c = ')' ∨ (blanks && Text.isBlank c))
    (hedge : edge (u ++ w ++ (run ++ y)) pos true blanks = (u ++ w ++ run).length)
    (hs : find? (u ++ w ++ (run ++ y)) pos true blanks = some s) :
    (reachLeft blanks (run.count ')') (split .backward u.reverse)).2 = 0 ∧
      s.start ≤ u.length + ((w ++ (run ++ y)).takeWhile Text.isBlank).length ∧
      (u ++ w).length ≤ s.stop := by
  obtain ⟨u', w', v', row', htext, hedge', hrow', rfl⟩ := find?_eq_some_iff.mp hs
  rw [← List.append_assoc] at htext
  have hlength := Int.ofNat_inj.mp (hedge.symm.trans hedge')
  obtain ⟨hsame, rfl⟩ := List.append_inj htext hlength
  have hreach := hrow'.reachLeft_eq
  rw [← hsame, reachLeft_append_run hrun, Nat.zero_add, h.reachLeft_add] at hreach
  obtain ⟨hwidth, hwaiting⟩ := Prod.mk.inj hreach
  have htotal := congrArg List.length hsame
  simp only [List.length_append] at htotal
  have hstop : (u ++ w).length ≤ (u' ++ w').length := by
    rw [← hsame]
    exact (List.prefix_append (u ++ w) run).length_le
  refine ⟨hwaiting, ?_, hstop⟩
  -- At least as much is taken in as before, so what is left in front is the beginning of `u`.
  have hfront : u ++ (w ++ run) = u' ++ w' := by rw [← hsame, List.append_assoc]
  obtain ⟨a, rfl⟩ : u' <+: u :=
    List.prefix_of_prefix_length_le ⟨w', hfront.symm⟩ ⟨w ++ run, rfl⟩ (by omega)
  have hbehind : w' ++ y = a ++ (w ++ (run ++ y)) := by
    rw [List.append_assoc] at hfront
    rw [← List.append_cancel_left hfront]
    simp only [List.append_assoc]
  have hblanks := length_takeWhile_append_le Text.isBlank a (w ++ (run ++ y))
  have hparts : (u' ++ a).length = u'.length + a.length := List.length_append
  rw [hbehind]
  change u'.length + _ ≤ (u' ++ a).length + _
  omega

/-- Where all parentheses that are taken in behind the position have partners, something is
found. -/
lemma Captures.exists_ahead {run y : Text} (h : Captures blanks u w row)
    (hrun : ∀ c ∈ run, c = ')' ∨ (blanks && Text.isBlank c))
    (hedge : edge (u ++ w ++ (run ++ y)) pos true blanks = (u ++ w ++ run).length)
    (hpartners : (reachLeft blanks (run.count ')') (split .backward u.reverse)).2 = 0) :
    ∃ s, find? (u ++ w ++ (run ++ y)) pos true blanks = some s := by
  have hreach := reachLeft_append_run hrun (u ++ w) 0
  rw [Nat.zero_add, h.reachLeft_add, hpartners] at hreach
  have htaken : 0 < w.length := List.length_pos_iff.mpr h.ne_nil
  rw [← List.append_assoc] at hedge ⊢
  exact ⟨_, find?_of_reachLeft hedge hreach (by omega)⟩

end Span

/-- Where an expression is found without look-ahead, look-ahead finds one that covers it, or none.
It finds one exactly if the lexemes in front of the expression, up to the first one that belongs to
no expression, have partners for the closing parentheses that are taken in behind the position. -/
theorem extract_ahead_iff {t : Text} {pos : Option Int} {blanks : Option Bool} {s : Span}
    (h : extract t pos (some false) blanks = some s) :
    ((∃ s', extract t pos (some true) blanks = some s' ∧ s'.start ≤ s.start ∧ s.stop ≤ s'.stop) ↔
        s.HasPartners (blanks.getD Settings.standard.blanks) t) ∧
      (extract t pos (some true) blanks = none ↔
        ¬ s.HasPartners (blanks.getD Settings.standard.blanks) t) := by
  have hplain : Span.find? t (pos.getD t.length) false (blanks.getD Settings.standard.blanks) =
      some s := h
  have hahead : extract t pos (some true) blanks =
      Span.find? t (pos.getD t.length) true (blanks.getD Settings.standard.blanks) := rfl
  rw [hahead]
  generalize blanks.getD Settings.standard.blanks = wanted at hplain ⊢
  generalize pos.getD t.length = place at hplain ⊢
  obtain ⟨u, w, v, row, rfl, hplace, hrow, rfl⟩ := Span.find?_eq_some_iff.mp hplain
  obtain rfl : place = (u ++ w).length := hplace
  obtain ⟨run, y, rfl, hedge, hclosings, hrun⟩ := Span.exists_run wanted (u ++ w) v
  rw [hrow.hasPartners_iff, hclosings]
  have hcovers (s') (hs' : Span.find? _ _ true wanted = some s') := hrow.covers hrun hedge hs'
  have hfound := hrow.exists_ahead hrun hedge
  constructor
  · constructor
    · rintro ⟨s', hs', -⟩
      exact (hcovers s' hs').1
    · intro hpartners
      obtain ⟨s', hs'⟩ := hfound hpartners
      exact ⟨s', hs', (hcovers s' hs').2⟩
  · rw [Option.eq_none_iff_forall_ne_some]
    constructor
    · intro hnone hpartners
      obtain ⟨s', hs'⟩ := hfound hpartners
      exact hnone s' hs'
    · intro hpartners s' hs'
      exact hpartners (hcovers s' hs').1

/-- In `a2*(3+1)`, in front of the closing parenthesis, the sum is found, and with look-ahead the
product. -/
theorem extract_ahead_iff_in_group :
    extract ['a', '2', '*', '(', '3', '+', '1', ')'] (some 7) (some false) none = some ⟨4, 7⟩ ∧
      ∃ s', extract ['a', '2', '*', '(', '3', '+', '1', ')'] (some 7) (some true) none = some s' ∧
        s'.start ≤ 4 ∧ 7 ≤ s'.stop := by
  have hplain : extract ['a', '2', '*', '(', '3', '+', '1', ')'] (some 7) (some false) none =
      some ⟨4, 7⟩ := rfl
  exact ⟨hplain, (extract_ahead_iff hplain).1.mpr (.inl rfl)⟩

/-- In `f(x,1)`, in front of the closing parenthesis, the `1` is found, and with look-ahead nothing
is. -/
theorem not_extract_ahead_argument :
    extract ['f', '(', 'x', ',', '1', ')'] (some 5) (some false) none = some ⟨4, 5⟩ ∧
      extract ['f', '(', 'x', ',', '1', ')'] (some 5) (some true) none = none :=
  ⟨rfl, rfl⟩

end Reckoner
