import Mathlib.Data.List.Infix
import Reckoner.Proofs.Extraction

/-!
# What is found in front of a position

Nothing is assumed about the text here: in front of any position of any text, what is found has
balanced parentheses, only characters of expressions, and digits and points in numerals only, and it
goes as far to the left as it can (`extract_balanced`).

The scan from the right counts closing parentheses that wait.  It keeps them as many as its part of
the text closes without having opened (`Span.count_eq_of_foldlM`), and an opening parenthesis is taken
in only where one waits.  So no end of the text found opens more than it closes
(`Span.count_le_of_foldlM`), and as in the end nothing waits, no front of it closes more than it
opens.

A span is proper if it is not empty and does not begin with a blank.  Whether something has been taken
in is asked before the blanks at its beginning are left out, so blanks alone are taken in and then
left out again, and the span ends at or before its start (`Span.exists_empty_of_find?`).  Nothing else
goes wrong (`extract_isProper_iff`).
-/

namespace Reckoner

open Lexeme Grammar

namespace Text

/-! ## What is expected of an expression -/

/-- No front of the text closes more parentheses than it opens, and all that are opened are closed. -/
structure IsBalanced (t : Text) : Prop where
  total : t.count ')' = t.count '('
  front : ∀ z, z <+: t → z.count ')' ≤ z.count '('

/-- The characters of expressions; blanks only where they are wanted. -/
def isAdmitted (blanks : Bool) (c : Char) : Bool :=
  Numeral.isPart c || isArithmetic c || c == '(' || c == ')' || (blanks && isBlank c)

/-- Between `x` and `y`, the text `run` is as long as possible as a text of digits and points. -/
structure IsRun (x run y : Text) : Prop where
  ne_nil : run ≠ []
  isPart : ∀ c ∈ run, Numeral.isPart c
  before : ∀ c ∈ x.getLast?, Numeral.isPart c = false
  after : ∀ c ∈ y.head?, Numeral.isPart c = false

/-- Every longest run of digits and points in the text has at most one point and ends with a
digit. -/
def HasNumeralRuns (t : Text) : Prop :=
  ∀ x run y, t = x ++ run ++ y → IsRun x run y →
    run.count '.' ≤ 1 ∧ ∀ c ∈ run.getLast?, c.isDigit

/-- Of the text in front of a run, only the end matters. -/
lemma IsRun.of_append {x x' run y : Text} (h : IsRun (x ++ x') run y) : IsRun x' run y :=
  ⟨h.ne_nil, h.isPart, fun c hc => h.before c (List.mem_getLast?_append_of_mem_getLast? hc), h.after⟩

/-- A text without digits and points in front changes nothing about a run. -/
lemma IsRun.append {x x' run y : Text} (h : IsRun x' run y)
    (hx : ∀ c ∈ x, Numeral.isPart c = false) : IsRun (x ++ x') run y := by
  refine ⟨h.ne_nil, h.isPart, fun c hc => ?_, h.after⟩
  rcases List.eq_nil_or_concat x' with rfl | ⟨x', d, rfl⟩
  · rw [List.append_nil] at hc
    exact hx c (List.mem_of_mem_getLast? hc)
  · refine h.before c ?_
    rwa [List.getLast?_append_of_ne_nil _ (by simp)] at hc

/-- Without a front that has no digits and points, a text has the runs that it has with it. -/
lemma HasNumeralRuns.of_append {x t : Text} (h : HasNumeralRuns (x ++ t))
    (hx : ∀ c ∈ x, Numeral.isPart c = false) : HasNumeralRuns t := by
  rintro x' run y rfl hrun
  exact h (x ++ x') run y (by simp only [List.append_assoc]) (hrun.append hx)

/-- Without a front that has no parentheses, a balanced text is balanced. -/
lemma IsBalanced.of_append {x t : Text} (h : IsBalanced (x ++ t))
    (hx : ∀ c ∈ x, c ≠ '(' ∧ c ≠ ')') : IsBalanced t := by
  have hopening : x.count '(' = 0 := List.count_eq_zero.mpr fun hc => (hx _ hc).1 rfl
  have hclosing : x.count ')' = 0 := List.count_eq_zero.mpr fun hc => (hx _ hc).2 rfl
  constructor
  · simpa [List.count_append, hopening, hclosing] using h.total
  · intro z hz
    have hfront := h.front (x ++ z) ((List.prefix_append_right_inj x).mpr hz)
    simpa [List.count_append, hopening, hclosing] using hfront

/-- A blank belongs to no numeral and is no parenthesis. -/
lemma isPart_and_ne_of_isBlank {c : Char} (hc : isBlank c) :
    Numeral.isPart c = false ∧ c ≠ '(' ∧ c ≠ ')' := by
  simp only [isBlank, Bool.or_eq_true, beq_iff_eq] at hc
  rcases hc with (rfl | rfl) | rfl <;> decide

/-- Of the white characters, expressions have only the blanks that are wanted. -/
lemma isBlank_of_isAdmitted {blanks : Bool} {c : Char} (hc : isWhite c)
    (h : isAdmitted blanks c) : blanks && isBlank c := by
  simp only [isWhite, isBlank, Bool.or_eq_true, beq_iff_eq] at hc
  rcases hc with ((((((rfl | rfl) | rfl) | rfl) | rfl) | rfl) | rfl) <;> exact h

/-- A text with another character than a blank is blanks and what begins with such a character. -/
lemma exists_blanks_append {t : Text} (h : ¬ ∀ c ∈ t, isBlank c) :
    ∃ gap d rest, t = gap ++ d :: rest ∧ (∀ c ∈ gap, isBlank c) ∧ isBlank d = false := by
  cases hrest : t.dropWhile isBlank with
  | nil => exact absurd (List.dropWhile_eq_nil_iff.mp hrest) h
  | cons d rest =>
    have hhead := List.head?_dropWhile_not isBlank t
    rw [hrest] at hhead
    refine ⟨t.takeWhile isBlank, d, rest, ?_, fun c => List.mem_takeWhile_imp, hhead⟩
    rw [← hrest, List.takeWhile_append_dropWhile]

/-- A character at a position parts the text. -/
lemma exists_append_of_at? {t : Text} {pos : Int} {c : Char} (h : t.at? pos = some c) :
    ∃ x y, t = x ++ c :: y ∧ pos = x.length := by
  have hpos : ¬ pos < 0 := by
    intro hneg
    rw [at?, if_pos hneg] at h
    cases h
  obtain ⟨n, rfl⟩ : ∃ n : Nat, pos = n := ⟨pos.toNat, by omega⟩
  rw [at?, if_neg hpos, Int.toNat_natCast] at h
  obtain ⟨hn, hc⟩ := List.getElem?_eq_some_iff.mp h
  refine ⟨t.take n, t.drop (n + 1), ?_, by rw [List.length_take_of_le hn.le]⟩
  rw [← hc, ← List.drop_eq_getElem_cons hn, List.take_append_drop]

end Text

namespace Numeral

/-- A numeral has at most one point and ends with a digit. -/
lemma IsNumeral.count_le_one {w : Text} (hw : IsNumeral w) :
    w.count '.' ≤ 1 ∧ ∀ c ∈ w.getLast?, c.isDigit := by
  have hnone : ∀ ds : Text, (∀ c ∈ ds, c.isDigit) → ds.count '.' = 0 := by
    intro ds hds
    refine List.count_eq_zero.mpr fun hc => ?_
    exact absurd (hds '.' hc) (by decide)
  cases hw with
  | whole hne hds =>
    exact ⟨by rw [hnone _ hds]; exact Nat.zero_le 1, fun c hc => hds c (List.mem_of_mem_getLast? hc)⟩
  | @point ds ps hds hne hps =>
    constructor
    · simp [hnone ds hds, hnone ps hps]
    · intro c hc
      rw [List.getLast?_append_of_ne_nil _ (List.cons_ne_nil _ _), List.getLast?_cons_of_ne_nil hne]
        at hc
      exact hps c (List.mem_of_mem_getLast? hc)

end Numeral

namespace Lexeme

/-- In the text of known lexemes without neighbouring numerals, the longest runs of digits and
points are the numerals. -/
theorem isNumeral_of_isRun {row : List Lexeme} {x run y : Text} (hknown : ∀ l ∈ row, l.IsKnown)
    (hapart : row.IsChain Apart) (h : joined .forward row = x ++ run ++ y)
    (hrun : Text.IsRun x run y) : Numeral.IsNumeral run := by
  induction row generalizing x with
  | nil =>
    have hnothing : x ++ run ++ y = [] := h.symm
    simp [hrun.ne_nil] at hnothing
  | cons l row ih =>
    obtain ⟨hl, hrest⟩ := List.forall_mem_cons.mp hknown
    obtain ⟨hhead, htail⟩ := List.isChain_cons.mp hapart
    have hjoined : l.text ++ joined .forward row = x ++ (run ++ y) := by
      rw [← List.append_assoc, ← h]
      rfl
    cases hnumeral : l.isNumeral with
    | false =>
      -- The lexeme is a character of its own, in front of the run.
      obtain ⟨c, hc, hother, -⟩ := exists_char_of_isKnown hl hnumeral
      rw [hc] at hjoined
      cases x with
      | nil =>
        obtain ⟨d, run, rfl⟩ := List.exists_cons_of_ne_nil hrun.ne_nil
        obtain ⟨rfl, -⟩ := List.cons.inj hjoined
        exact absurd (hrun.isPart c List.mem_cons_self) (by simp [hother])
      | cons d x =>
        obtain ⟨rfl, htext⟩ := List.cons.inj hjoined
        have hbehind : Text.IsRun ([c] ++ x) run y := hrun
        exact ih hrest htail (htext.trans (List.append_assoc x run y).symm) hbehind.of_append
    | true =>
      obtain ⟨w, rfl⟩ : ∃ w, l = numeral w := by
        cases l <;> first | exact ⟨_, rfl⟩ | cases hnumeral
      have hw : Numeral.IsNumeral w := hl
      obtain ⟨x', rfl, htext⟩ | ⟨w', hx, hrow⟩ := List.append_eq_append_iff.mp hjoined
      · exact ih hrest htail (htext.trans (List.append_assoc x' run y).symm) hrun.of_append
      · have hx : w = x ++ w' := hx
        rcases List.eq_nil_or_concat x with rfl | ⟨x, c, rfl⟩
        · -- The numeral and the run begin together, and neither goes on behind the other.
          obtain rfl : w = w' := hx
          have hnext : ∀ m ∈ row.head?, m.isNumeral = false :=
            fun m hm => by simpa [Apart, isNumeral] using hhead m hm
          have hafter := isPart_head_joined_append .forward hrest hnext (t := []) (by simp)
          rw [List.append_nil] at hafter
          have htaken := (span_append hrun.isPart y hrun.after).1
          rw [hrow, (span_append hw.isPart _ hafter).1] at htaken
          exact htaken ▸ hw
        · -- The numeral ends in front of the run with a digit.
          rw [List.concat_eq_append] at hx hrun
          have hother := hrun.before c (by simp)
          have hpart := hw.isPart c (by simp [hx])
          exact absurd hpart (by simp [hother])

end Lexeme

namespace Span

variable {blanks ahead : Bool} {waiting left : Nat} {row : List Lexeme} {t u w v : Text} {pos : Int}

/-! ## What is taken in -/

/-- Read from the right, the first lexeme of a row stands at the end of its text. -/
lemma joined_reverse_cons (l : Lexeme) (row : List Lexeme) :
    joined .forward (l :: row).reverse = joined .forward row.reverse ++ l.text := by
  simp [joined, written]

/-- A lexeme is taken in if it opens no more than waits, and then what waits is changed by what it
opens and closes. -/
lemma count_eq_of_takeIn {l : Lexeme} (hl : l.IsKnown) (h : takeIn blanks waiting l = some left) :
    l.text.count '(' ≤ waiting ∧ waiting + l.text.count ')' = left + l.text.count '(' := by
  cases l with
  | numeral w =>
    obtain rfl := Option.some.inj h
    have hnone : ∀ c, Numeral.isPart c = false → w.count c = 0 := by
      intro c hc
      refine List.count_eq_zero.mpr fun hmem => ?_
      exact absurd (Numeral.IsNumeral.isPart hl c hmem) (by simp [hc])
    simp [text, hnone '(' rfl, hnone ')' rfl]
  | symbol op =>
    cases op with
    | leftParenthesis =>
      rw [takeIn, Option.ite_none_left_eq_some] at h
      obtain ⟨hwaiting, hleft⟩ := h
      obtain rfl := Option.some.inj hleft
      have hopens : (text (.symbol .leftParenthesis)).count '(' = 1 := rfl
      have hcloses : (text (.symbol .leftParenthesis)).count ')' = 0 := rfl
      omega
    | rightParenthesis =>
      obtain rfl := Option.some.inj h
      exact ⟨Nat.zero_le _, rfl⟩
    | plus | minus | multiply | divide | intDivide =>
      obtain rfl := Option.some.inj h
      exact ⟨Nat.zero_le _, rfl⟩
  | white c =>
    rw [takeIn, Option.ite_none_right_eq_some, Bool.and_eq_true] at h
    obtain ⟨⟨-, hblank⟩, hleft⟩ := h
    obtain rfl := Option.some.inj hleft
    obtain ⟨-, hopening, hclosing⟩ := Text.isPart_and_ne_of_isBlank hblank
    simp [text, hopening, hclosing]
  | foreign c => exact hl.elim

/-- What waits is changed by what the text of the row opens and closes. -/
lemma count_eq_of_foldlM (hrow : ∀ l ∈ row, l.IsKnown)
    (h : row.foldlM (takeIn blanks) waiting = some left) :
    waiting + (joined .forward row.reverse).count ')' =
      left + (joined .forward row.reverse).count '(' := by
  induction row generalizing waiting with
  | nil =>
    obtain rfl := Option.some.inj h
    rfl
  | cons l row ih =>
    obtain ⟨hl, hrest⟩ := List.forall_mem_cons.mp hrow
    obtain ⟨between, htaken, hbehind⟩ := Option.bind_eq_some_iff.mp h
    have hsum := ih hrest hbehind
    have hstep := (count_eq_of_takeIn hl htaken).2
    rw [joined_reverse_cons, List.count_append, List.count_append]
    omega

/-- No end of the text of the row opens more than it closes and what waits together. -/
lemma count_le_of_foldlM {z y : Text} (hrow : ∀ l ∈ row, l.IsKnown)
    (h : row.foldlM (takeIn blanks) waiting = some left)
    (hend : joined .forward row.reverse = z ++ y) : y.count '(' ≤ waiting + y.count ')' := by
  induction row generalizing waiting y with
  | nil =>
    have hnothing : z ++ y = [] := hend.symm
    obtain ⟨-, rfl⟩ := List.append_eq_nil_iff.mp hnothing
    simp
  | cons l row ih =>
    obtain ⟨hl, hrest⟩ := List.forall_mem_cons.mp hrow
    obtain ⟨between, htaken, hbehind⟩ := Option.bind_eq_some_iff.mp h
    obtain ⟨hopens, hstep⟩ := count_eq_of_takeIn hl htaken
    rw [joined_reverse_cons] at hend
    obtain ⟨x, rfl, htext⟩ | ⟨x, hx, rfl⟩ := List.append_eq_append_iff.mp hend
    · -- The end begins inside the lexeme.
      have hpart : y.count '(' ≤ l.text.count '(' := by
        rw [htext, List.count_append]
        exact Nat.le_add_left _ _
      omega
    · have hsum := ih hrest hbehind hx
      rw [List.count_append, List.count_append]
      omega

/-- What is taken in has characters of expressions only. -/
lemma isAdmitted_of_takeIn {l : Lexeme} (hl : l.IsKnown) (h : takeIn blanks waiting l = some left) :
    ∀ c ∈ l.text, Text.isAdmitted blanks c := by
  cases l with
  | numeral w =>
    intro c hc
    simp [Text.isAdmitted, Numeral.IsNumeral.isPart hl c hc]
  | symbol op =>
    simp only [text, List.mem_singleton, forall_eq]
    cases op <;> rfl
  | white c =>
    rw [takeIn, Option.ite_none_right_eq_some, Bool.and_eq_true] at h
    simp [text, Text.isAdmitted, h.1.1, h.1.2]
  | foreign c => exact hl.elim

/-- What is taken in has characters of expressions only. -/
lemma isAdmitted_of_foldlM (hrow : ∀ l ∈ row, l.IsKnown)
    (h : row.foldlM (takeIn blanks) waiting = some left) :
    ∀ c ∈ joined .forward row.reverse, Text.isAdmitted blanks c := by
  induction row generalizing waiting with
  | nil => exact List.forall_mem_nil _
  | cons l row ih =>
    obtain ⟨hl, hrest⟩ := List.forall_mem_cons.mp hrow
    obtain ⟨between, htaken, hbehind⟩ := Option.bind_eq_some_iff.mp h
    rw [joined_reverse_cons]
    exact List.forall_mem_append.mpr ⟨ih hrest hbehind, isAdmitted_of_takeIn hl htaken⟩

namespace Captures

/-- What is taken in is known, and no two of its numerals stand side by side. -/
lemma isKnown_and_isChain (h : Captures blanks u w row) :
    (∀ l ∈ row, l.IsKnown) ∧ row.IsChain Apart :=
  isKnown_and_isChain_of_taken h.split_eq h.foldlM_eq

/-- What is taken in is balanced. -/
lemma isBalanced (h : Captures blanks u w row) : w.IsBalanced := by
  have hknown := h.isKnown_and_isChain.1
  have htotal := count_eq_of_foldlM hknown h.foldlM_eq
  rw [h.joined_eq, Nat.zero_add, Nat.zero_add] at htotal
  refine ⟨htotal, ?_⟩
  rintro z ⟨y, rfl⟩
  have hend := count_le_of_foldlM hknown h.foldlM_eq h.joined_eq
  rw [List.count_append, List.count_append] at htotal
  omega

/-- What is taken in has characters of expressions only. -/
lemma isAdmitted (h : Captures blanks u w row) : ∀ c ∈ w, Text.isAdmitted blanks c := by
  have hchars := isAdmitted_of_foldlM h.isKnown_and_isChain.1 h.foldlM_eq
  rwa [h.joined_eq] at hchars

/-- What is taken in has digits and points in numerals only. -/
lemma hasNumeralRuns (h : Captures blanks u w row) : w.HasNumeralRuns := by
  obtain ⟨hknown, hchain⟩ := h.isKnown_and_isChain
  intro x run y hw hrun
  have hnumeral : Numeral.IsNumeral run :=
    isNumeral_of_isRun (by simpa using hknown) (isChain_apart_reverse hchain)
      (h.joined_eq.trans hw) hrun
  exact hnumeral.count_le_one

/-- Blanks that are taken in are wanted. -/
lemma and_isBlank_of_mem (h : Captures blanks u w row) :
    ∀ c ∈ (w ++ v).takeWhile Text.isBlank, blanks && Text.isBlank c := by
  intro c hc
  obtain ⟨d, w, rfl⟩ := List.exists_cons_of_ne_nil h.ne_nil
  have hd : Text.isBlank d := by
    by_contra hd
    rw [List.cons_append, List.takeWhile_cons_of_neg hd] at hc
    cases hc
  have hwanted :=
    Text.isBlank_of_isAdmitted (Text.isWhite_of_isBlank hd) (h.isAdmitted d List.mem_cons_self)
  rw [Bool.and_eq_true] at hwanted ⊢
  exact ⟨hwanted.1, List.mem_takeWhile_imp hc⟩

end Captures

/-- The span `s` goes as far to the left as it can in `t`.  Blanks that are wanted apart, in front of
it stands nothing or an outside character; and from there up to the end of the span no more
parentheses are closed than opened, so an opening parenthesis there has no partner. -/
def IsLeftmost (blanks : Bool) (t : Text) (s : Span) : Prop :=
  ∃ u gap, t.take s.start = u ++ gap ∧ (∀ c ∈ gap, blanks && Text.isBlank c) ∧
    (∀ c ∈ u.getLast?, Text.isOutside blanks c) ∧
    ∀ n : Nat, n ≤ s.stop → (t.slice u.length n).count ')' ≤ (t.slice u.length n).count '('

/-- What is found goes as far to the left as it can. -/
lemma Captures.isLeftmost (h : Captures blanks u w row) (v : Text) :
    IsLeftmost blanks (u ++ w ++ v)
      ⟨u.length + ((w ++ v).takeWhile Text.isBlank).length, (u ++ w).length⟩ := by
  refine ⟨u, (w ++ v).takeWhile Text.isBlank, ?_, h.and_isBlank_of_mem, h.outside, ?_⟩
  · rw [List.append_assoc, List.take_length_add_append, Numeral.take_length_takeWhile]
  · intro n hn
    -- The part is a front of what has been taken in.
    refine h.isBalanced.front _ ?_
    rw [Text.slice_natCast, List.take_append_of_le_length hn]
    have hfront : (u ++ w).take n <+: u ++ w := List.take_prefix n (u ++ w)
    simpa using hfront.drop u.length

end Span

/-- In front of any position of any text, with any switches: what is found has balanced parentheses,
only characters of expressions, and digits and points in numerals only, and it goes as far to the
left as it can. -/
theorem extract_balanced {t : Text} {pos : Option Int} {ahead blanks : Option Bool} {s : Span}
    (h : extract t pos ahead blanks = some s) :
    (s.textOf t).IsBalanced ∧
      (∀ c ∈ s.textOf t, Text.isAdmitted (blanks.getD Settings.standard.blanks) c) ∧
      (s.textOf t).HasNumeralRuns ∧ s.IsLeftmost (blanks.getD Settings.standard.blanks) t := by
  obtain ⟨u, w, v, row, rfl, -, hrow, rfl⟩ := Span.find?_eq_some_iff.mp h
  have hblank : ∀ c ∈ w.takeWhile Text.isBlank,
      Numeral.isPart c = false ∧ c ≠ '(' ∧ c ≠ ')' :=
    fun c hc => Text.isPart_and_ne_of_isBlank (List.mem_takeWhile_imp hc)
  have hw : w.takeWhile Text.isBlank ++ w.dropWhile Text.isBlank = w :=
    List.takeWhile_append_dropWhile
  rw [Span.textOf_captured]
  refine ⟨?balanced, ?admitted, ?runs, hrow.isLeftmost v⟩
  case balanced =>
    have hbalanced := hrow.isBalanced
    rw [← hw] at hbalanced
    exact hbalanced.of_append fun c hc => (hblank c hc).2
  case admitted =>
    exact fun c hc => hrow.isAdmitted c (List.dropWhile_subset _ hc)
  case runs =>
    have hruns := hrow.hasNumeralRuns
    rw [← hw] at hruns
    exact hruns.of_append fun c hc => (hblank c hc).1

/-- In `a (1.5+2) y`, behind a second parenthesis that is open there, the first one is found. -/
theorem extract_balanced_behind_parenthesis :
    extract ['a', '(', ' ', '(', '1', '.', '5', '+', '2', ')', ' ', 'y'] (some 10) none none =
        some ⟨3, 10⟩ ∧
      Text.IsBalanced ['(', '1', '.', '5', '+', '2', ')'] ∧
      Text.HasNumeralRuns ['(', '1', '.', '5', '+', '2', ')'] ∧
      Span.IsLeftmost true ['a', '(', ' ', '(', '1', '.', '5', '+', '2', ')', ' ', 'y']
        ⟨3, 10⟩ := by
  have hfound : extract ['a', '(', ' ', '(', '1', '.', '5', '+', '2', ')', ' ', 'y'] (some 10) none
      none = some ⟨3, 10⟩ := rfl
  obtain ⟨hbalanced, -, hruns, hleftmost⟩ := extract_balanced hfound
  exact ⟨hfound, hbalanced, hruns, hleftmost⟩

/-! ## Spans that are not proper -/

/-- A span that is not empty, lies in the text and does not begin with a blank. -/
structure Span.IsProper (t : Text) (s : Span) : Prop where
  start_lt : s.start < s.stop
  stop_le : s.stop ≤ t.length
  visible : ∀ c ∈ t[s.start]?, Text.isBlank c = false

/-- Blanks, and nothing else, are taken in at the position: blanks are wanted, no closing parenthesis
is taken in behind the position, and in front of the blanks stands nothing or an outside
character. -/
structure Text.IsVacantAt (t : Text) (pos : Int) (ahead blanks : Bool) : Prop where
  wanted : blanks
  behind : ahead → t.at? pos ≠ some ')'
  parts : ∃ u gap v, t = u ++ gap ++ v ∧ pos = (u ++ gap).length ∧ gap ≠ [] ∧
    (∀ c ∈ gap, isBlank c) ∧ ∀ c ∈ u.getLast?, isOutside true c

namespace Span

section

variable {blanks ahead : Bool} {row : List Lexeme} {t u w v : Text} {pos : Int}

/-- A closing parenthesis behind the position is taken in with all those that follow it and, if they
are wanted, the blanks between them. -/
lemma exists_run_of_at? (blanks : Bool) (h : t.at? pos = some ')') :
    ∃ x run y, t = x ++ ')' :: run ++ y ∧ pos = x.length ∧
      edge t pos true blanks = (x ++ ')' :: run).length ∧ y.head? ≠ some ')' ∧
      ∀ c ∈ run, c = ')' ∨ (blanks && Text.isBlank c) := by
  have hedge : edge t pos true blanks = _ := if_pos h
  obtain ⟨x, behind, rfl, rfl⟩ := Text.exists_append_of_at? h
  have hdrop : (x ++ ')' :: behind).drop (x.length + 1) = behind := by
    rw [← List.drop_drop, List.drop_left]
    rfl
  rw [Int.toNat_natCast, hdrop] at hedge
  generalize hclass : (fun c => c == ')' || (blanks && Text.isBlank c)) = p at hedge
  refine ⟨x, behind.takeWhile p, behind.dropWhile p, ?_, rfl, ?_, ?_, ?_⟩
  · rw [List.append_assoc, List.cons_append, List.takeWhile_append_dropWhile]
  · rw [hedge, List.length_append, List.length_cons]
    omega
  · intro hclosing
    have hhead := List.head?_dropWhile_not p behind
    rw [hclosing] at hhead
    simp [← hclass] at hhead
  · intro c hc
    have hp : p c := List.mem_takeWhile_imp hc
    simpa [← hclass] using hp

/-- A closing parenthesis that is taken in behind the position is part of what is found. -/
lemma Captures.closing_mem {x run : Text} (h : Captures blanks u w row)
    (htext : u ++ w = x ++ ')' :: run)
    (hrun : ∀ c ∈ run, c = ')' ∨ (blanks && Text.isBlank c)) : ')' ∈ w := by
  obtain ⟨y, rfl, rfl⟩ | ⟨y, rfl, hy⟩ := List.append_eq_append_iff.mp htext
  · simp
  · rcases List.eq_nil_or_concat y with rfl | ⟨y, d, rfl⟩
    · rw [List.nil_append] at hy
      simp [← hy]
    · -- In front of what is taken in stands a character of the run, which would be taken in too.
      rw [List.concat_eq_append] at hy h
      have hd : d = ')' ∨ (blanks && Text.isBlank d) := by
        have hmem : d ∈ ')' :: run := by simp [hy]
        rcases List.mem_cons.mp hmem with rfl | hmem
        · exact .inl rfl
        · exact hrun d hmem
      have houtside := h.outside d (by simp)
      simp only [Text.isOutside, Bool.and_eq_true, Bool.not_eq_true', bne_iff_ne] at houtside
      obtain ⟨⟨⟨-, hblank⟩, -⟩, hclosing⟩ := houtside
      exact absurd (hd.resolve_left hclosing) (by simp [hblank])

/-- What is found ends at the position.  Otherwise it ends with closing parentheses behind the
position, and then their partners stand in front of it. -/
lemma Captures.pos_eq_or_mem (h : Captures blanks u w row)
    (hedge : edge (u ++ w ++ v) pos ahead blanks = (u ++ w).length) :
    ((ahead → (u ++ w ++ v).at? pos ≠ some ')') ∧ pos = (u ++ w).length) ∨
      (')' ∈ w ∧ '(' ∈ (u ++ w ++ v).take pos.toNat) := by
  by_cases hkept : ahead → (u ++ w ++ v).at? pos ≠ some ')'
  · exact .inl ⟨hkept, (edge_eq_self hkept).symm.trans hedge⟩
  · simp only [not_forall, not_not] at hkept
    obtain ⟨rfl, hat⟩ := hkept
    obtain ⟨x, run, y, htext, rfl, hstop, -, hrun⟩ := exists_run_of_at? blanks hat
    have hparts : u ++ w = x ++ ')' :: run :=
      List.append_inj_left htext (Int.ofNat_inj.mp (hedge.symm.trans hstop))
    have hclosing := h.closing_mem hparts hrun
    refine .inr ⟨hclosing, ?_⟩
    -- A closing parenthesis has a partner, and this one is not behind the position.
    have hopening : '(' ∈ w := by
      rw [← List.one_le_count_iff, ← h.isBalanced.total, List.one_le_count_iff]
      exact hclosing
    have hmem : '(' ∈ x ++ ')' :: run := by
      rw [← hparts]
      exact List.mem_append_right u hopening
    rw [htext, List.append_assoc, Int.toNat_natCast, List.take_left]
    rcases List.mem_append.mp hmem with hx | hbehind
    · exact hx
    · rcases List.mem_cons.mp hbehind with hne | hmem
      · exact absurd hne (by decide)
      · rcases hrun _ hmem with hne | hblank
        · exact absurd hne (by decide)
        · exact absurd hblank (by simp [Text.isBlank])

/-- Where what is found has blanks only, or only white characters stand in front of the position,
blanks alone are taken in. -/
lemma Captures.isVacantAt (h : Captures blanks u w row)
    (hedge : edge (u ++ w ++ v) pos ahead blanks = (u ++ w).length)
    (hblank : (∀ c ∈ w, Text.isBlank c) ∨
      ∀ c ∈ (u ++ w ++ v).take pos.toNat, Text.isWhite c) :
    (u ++ w ++ v).IsVacantAt pos ahead blanks := by
  obtain ⟨hkept, rfl⟩ | ⟨hclosing, hopening⟩ := h.pos_eq_or_mem hedge
  · have hwhite : ∀ c ∈ w, Text.isWhite c := by
      rcases hblank with hblank | hwhite
      · exact fun c hc => Text.isWhite_of_isBlank (hblank c hc)
      · rw [Int.toNat_natCast, List.take_left] at hwhite
        exact fun c hc => hwhite c (List.mem_append_right u hc)
    have hwanted : ∀ c ∈ w, blanks && Text.isBlank c :=
      fun c hc => Text.isBlank_of_isAdmitted (hwhite c hc) (h.isAdmitted c hc)
    simp only [Bool.and_eq_true] at hwanted
    obtain ⟨c, hc⟩ := List.exists_mem_of_ne_nil w h.ne_nil
    obtain rfl := (hwanted c hc).1
    exact ⟨rfl, hkept, u, w, v, rfl, rfl, h.ne_nil, fun c hc => (hwanted c hc).2, h.outside⟩
  · rcases hblank with hblank | hwhite
    · exact absurd (hblank _ hclosing) (by decide)
    · exact absurd (hwhite _ hopening) (by decide)

/-- What is found is a proper span if it has another character than a blank. -/
lemma isProper_of_not_blank (hw : ¬ ∀ c ∈ w, Text.isBlank c) (u v : Text) :
    IsProper (u ++ w ++ v)
      ⟨u.length + ((w ++ v).takeWhile Text.isBlank).length, (u ++ w).length⟩ := by
  obtain ⟨gap, d, rest, rfl, hgap, hd⟩ := Text.exists_blanks_append hw
  have htake : (gap ++ d :: rest ++ v).takeWhile Text.isBlank = gap := by
    rw [List.append_assoc]
    exact (span_append hgap (d :: rest ++ v) (by simp [hd])).1
  rw [htake]
  refine ⟨?_, ?_, ?_⟩
  · simp only [List.length_append, List.length_cons]
    omega
  · exact (List.prefix_append (u ++ (gap ++ d :: rest)) v).length_le
  · have hat : (u ++ (gap ++ d :: rest) ++ v)[u.length + gap.length]? = some d := by
      rw [← List.append_assoc u, ← List.length_append, List.append_assoc (u ++ gap),
        List.getElem?_append_right le_rfl, Nat.sub_self]
      rfl
    intro c hc
    rw [hat] at hc
    exact Option.some.inj hc ▸ hd

/-- Blanks that are wanted are taken in. -/
lemma foldlM_takeIn_blanks {cs : Text} (hcs : ∀ c ∈ cs, Text.isBlank c) (waiting : Nat) :
    (cs.map white).foldlM (takeIn true) waiting = some waiting := by
  induction cs with
  | nil => rfl
  | cons c cs ih =>
    obtain ⟨hc, hrest⟩ := List.forall_mem_cons.mp hcs
    have htaken : takeIn true waiting (white c) = some waiting := by rw [takeIn, hc]; rfl
    rw [List.map_cons, List.foldlM_cons, htaken]
    exact ih hrest

/-- Where blanks alone are taken in, an empty span is found, and its start may lie behind its end. -/
lemma exists_empty_of_find? (h : t.IsVacantAt pos ahead blanks) :
    ∃ s, find? t pos ahead blanks = some s ∧ s.stop ≤ s.start := by
  obtain ⟨rfl, hbehind, u, gap, v, rfl, rfl, hne, hblank, hu⟩ := h
  have hturned : ∀ c ∈ gap.reverse, Text.isBlank c := by simpa using hblank
  have hrow : Captures true u gap (gap.reverse.map white) := by
    refine ⟨hne, ?_, foldlM_takeIn_blanks hturned 0, hu⟩
    rw [List.reverse_append,
      split_whites_append .backward fun c hc => Text.isWhite_of_isBlank (hturned c hc)]
  refine ⟨_, find?_eq_some_iff.mpr ⟨u, gap, v, _, rfl, edge_eq_self hbehind, hrow, rfl⟩, ?_⟩
  rw [List.takeWhile_append_of_pos hblank]
  simp only [List.length_append]
  omega

end

end Span

/-- At any position of any text, with any switches: what is found is a proper span, and nothing is
found where only white characters stand in front of the position, unless blanks alone are taken in.
There an empty span is found (`Span.exists_empty_of_find?`). -/
theorem extract_isProper_iff (t : Text) (pos : Option Int) (ahead blanks : Option Bool) :
    ((∀ s, extract t pos ahead blanks = some s → s.IsProper t) ∧
        ((∀ c ∈ t.take (pos.getD t.length).toNat, Text.isWhite c) →
          extract t pos ahead blanks = none)) ↔
      ¬ t.IsVacantAt (pos.getD t.length) (ahead.getD Settings.standard.lookAhead)
        (blanks.getD Settings.standard.blanks) := by
  constructor
  · rintro ⟨hproper, -⟩ hvacant
    obtain ⟨s, hs, hempty⟩ := Span.exists_empty_of_find? hvacant
    have hlt := (hproper s hs).start_lt
    omega
  · intro hoccupied
    constructor
    · intro s hs
      obtain ⟨u, w, v, row, rfl, hedge, hrow, rfl⟩ := Span.find?_eq_some_iff.mp hs
      refine Span.isProper_of_not_blank (fun hblank => ?_) u v
      exact hoccupied (hrow.isVacantAt hedge (.inl hblank))
    · intro hwhite
      refine Option.eq_none_iff_forall_ne_some.mpr fun s hs => ?_
      obtain ⟨u, w, v, row, rfl, hedge, hrow, rfl⟩ := Span.find?_eq_some_iff.mp hs
      exact hoccupied (hrow.isVacantAt hedge (.inr hwhite))

/-- Between two spaces, where only white space stands in front of the position, a span is found that
ends before its start. -/
theorem not_extract_isProper_blanks :
    extract [' ', ' '] (some 1) none none = some ⟨2, 1⟩ ∧
      (∀ c ∈ List.take 1 [' ', ' '], Text.isWhite c) ∧ ¬ Span.IsProper [' ', ' '] ⟨2, 1⟩ := by
  refine ⟨rfl, List.forall_mem_singleton.mpr rfl, fun h => ?_⟩
  exact absurd h.start_lt (by decide)

end Reckoner
