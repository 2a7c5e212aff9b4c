import Reckoner.Proofs.Reading.Faults
import Reckoner.Proofs.Retrieval

/-!
# Where a malformed expression shows

A text that gives no tokens is malformed and nothing else: its numerals denote numbers, its symbols
are known, and no position outside the text is read.  The column of the fault is that of a character
of the text, and from the left it is the first character of a visible lexeme
(`answer_or_showsIn`).

From the left a fault is found at the lexeme that does not fit, or at the end of the text, where it
is laid to the latest visible lexeme.  From the right it is found at the beginning of a lexeme, or
at the place where the reader has stopped; at the place where it has begun there is no fault, since
there all parentheses are closed and no tokens wait.
-/

namespace Reckoner

open Lexeme

/-! ## Faults of a text -/

namespace Fault

/-- The fault makes the expression malformed, which shows at the column. -/
def ShowsAt (f : Fault) (column : Int) : Prop := ∃ reason, f = .malformed reason column

/-- The fault makes the expression malformed, which shows at one of the characters of the text, from
the left at one that is not white. -/
def ShowsIn (f : Fault) (dir : Direction) (t : Text) : Prop :=
  ∃ column : Nat, f.ShowsAt column ∧ column < t.length ∧
    (dir = .forward → ∃ c, t[column]? = some c ∧ Text.isWhite c = false)

end Fault

namespace Lexeme

/-- A visible lexeme of the row begins at the column. -/
def BeginsAt (row : List Lexeme) (column : Nat) : Prop :=
  ∃ before l after, row = before ++ l :: after ∧ l.isWhite = false ∧ column = width before

variable {row : List Lexeme} {l : Lexeme} {column : Nat}

/-- In front of a row, a lexeme moves what begins in the row to the right. -/
lemma BeginsAt.cons (h : BeginsAt row column) (l : Lexeme) :
    BeginsAt (l :: row) (l.length + column) := by
  obtain ⟨before, m, after, rfl, hm, rfl⟩ := h
  exact ⟨l :: before, m, after, rfl, hm, rfl⟩

/-- A visible lexeme begins where its row begins. -/
lemma beginsAt_zero (hl : l.isWhite = false) : BeginsAt (l :: row) 0 := ⟨[], l, row, rfl, hl, rfl⟩

/-- What is left of a row has the numerals that the row has. -/
lemma HasNumerals.tail (h : HasNumerals (l :: row)) : HasNumerals row :=
  h.mono (List.subset_cons_self l row)

/-- No lexeme of a text is empty. -/
lemma HasNumerals.length_pos (h : HasNumerals (l :: row)) : 0 < l.length := by
  cases l with
  | numeral t => exact List.length_pos_iff.mpr (h t List.mem_cons_self).ne_nil
  | symbol | white | foreign => exact Nat.one_pos

/-- A row of lexemes is not empty if it has any. -/
lemma HasNumerals.width_pos (h : HasNumerals row) (hne : row ≠ []) : 0 < width row := by
  obtain ⟨l, row, rfl⟩ := List.exists_cons_of_ne_nil hne
  exact Nat.add_pos_left h.length_pos _

/-- A foreign character is not white. -/
lemma isWhite_of_ofChar_eq_foreign {c d : Char} (h : ofChar c = .foreign d) :
    Text.isWhite d = false := by
  unfold ofChar at h
  cases hop : Operator.ofChar? c with
  | some op => simp [hop] at h
  | none =>
    cases hwhite : Text.isWhite c with
    | true => simp [hop, hwhite] at h
    | false =>
      simp only [hop, hwhite, Bool.false_eq_true, if_false] at h
      rwa [← Lexeme.foreign.inj h]

/-- The foreign characters of a text are not white. -/
lemma isWhite_of_foreign_mem_splitFrom (dir : Direction) {skip : Nat} {t : Text} {d : Char}
    (h : .foreign d ∈ splitFrom dir skip t) : Text.isWhite d = false := by
  induction t generalizing skip with
  | nil => simp [splitFrom] at h
  | cons c cs ih =>
    cases skip with
    | succ skip => exact ih h
    | zero =>
      cases hreach : Numeral.reach dir (c :: cs) with
      | zero =>
        rw [splitFrom, hreach] at h
        rcases List.mem_cons.mp h with hchar | h
        · exact isWhite_of_ofChar_eq_foreign hchar.symm
        · exact ih h
      | succ n =>
        rw [splitFrom, hreach] at h
        rcases List.mem_cons.mp h with hnumeral | h
        · cases hnumeral
        · exact ih h

/-- A visible lexeme of a text begins with a character that is not white. -/
lemma exists_cons_of_mem_split {t : Text} (h : l ∈ split .forward t) (hl : l.isWhite = false) :
    ∃ c cs, l.text = c :: cs ∧ Text.isWhite c = false := by
  cases l with
  | numeral w =>
    have hw : Grammar.IsTerminal (.numeral w) := hasNumerals_split .forward t w h
    exact hw.exists_cons
  | symbol op => exact Grammar.IsTerminal.exists_cons trivial
  | white => simp [isWhite] at hl
  | foreign d => exact ⟨d, [], rfl, isWhite_of_foreign_mem_splitFrom .forward h⟩

/-- Where a visible lexeme of a text begins, there is a character that is not white. -/
theorem BeginsAt.exists_getElem? {t : Text} (h : BeginsAt (split .forward t) column) :
    ∃ c, t[column]? = some c ∧ Text.isWhite c = false := by
  obtain ⟨before, l, after, hrow, hl, rfl⟩ := h
  have hmem : l ∈ split .forward t := by
    rw [hrow]
    simp
  obtain ⟨c, cs, htext, hc⟩ := exists_cons_of_mem_split hmem hl
  have ht : t = joined .forward before ++ (c :: cs ++ joined .forward after) := by
    rw [← joined_split .forward t, hrow, joined_append, joined, joined, List.flatMap_cons, written,
      id, htext]
    rfl
  refine ⟨c, ?_, hc⟩
  rw [ht, ← length_joined .forward, List.getElem?_append_right (Nat.le_refl _)]
  simp

end Lexeme

namespace Progress

open Fault

variable {step column : Int} {dir : Direction} {p q : Progress} {l : Lexeme} {row : List Lexeme}
  {f : Fault}

/-! ## Steps -/

/-- A category that may not come next shows at its column. -/
lemma showsAt_of_require {cat : Category} {reason : Reason} :
    ∀ f, p.require dir cat reason column = .error f → f.ShowsAt column := by
  intro f h
  unfold require at h
  split at h
  · cases h
  · obtain rfl := Except.error.inj h
    exact ⟨reason, rfl⟩

/-- A category that may not come next shows at its column, whatever follows on it. -/
lemma showsAt_of_require_bind {cat : Category} {reason : Reason} {g : Progress → Progress} :
    ∀ f, (do let q ← p.require dir cat reason column; return g q) = Except.error f →
      f.ShowsAt column :=
  fault_of_bind showsAt_of_require fun _ _ h => by cases h

/-- A numeral that may not come next shows at its column. -/
lemma showsAt_of_readNumber {t : Text} (ht : Numeral.IsNumeral t) :
    ∀ f, p.readNumber dir column t = .error f → f.ShowsAt column := by
  refine fault_of_bind showsAt_of_require fun q => ?_
  rw [Token.ofNumeral_eq_ok ht]
  intro f h
  cases h

/-- From the left, a lexeme that may not come next is visible and shows at its column. -/
lemma showsAt_of_readForward (hrow : HasNumerals (l :: row))
    (h : p.readForward step column l = .error f) : l.isWhite = false ∧ f.ShowsAt column := by
  cases l with
  | white c => cases h
  | foreign c =>
    obtain rfl := Except.error.inj h
    exact ⟨rfl, _, rfl⟩
  | numeral t => exact ⟨rfl, showsAt_of_readNumber (hrow t List.mem_cons_self) f h⟩
  | symbol op =>
    refine ⟨rfl, ?_⟩
    rcases arithmetic_or_parenthesis .forward op with hop | rfl | rfl
    · rw [readForward_symbol hop] at h
      split at h
      · cases h
      · exact showsAt_of_require_bind f h
    · exact showsAt_of_require_bind (g := fun q => { q with depth := p.depth + 1 }) f h
    · rw [readForward_exit] at h
      split at h
      · obtain rfl := Except.error.inj h
        exact ⟨_, rfl⟩
      · rename_i depth _
        exact showsAt_of_require_bind
          (g := fun q => { q with depth := depth }.pushEmpty p.expected.emptyGroup) f h

/-- From the right, a lexeme at which there is a fault shows at its column. -/
lemma showsAt_of_readBackward {left : List Lexeme} (hrow : HasNumerals (l :: row))
    (h : p.readBackward step column left l = .error f) : f.ShowsAt column := by
  cases l with
  | white c | foreign c => cases h
  | numeral t => exact fault_of_map (showsAt_of_readNumber (hrow t List.mem_cons_self)) f h
  | symbol op =>
    rcases arithmetic_or_parenthesis .backward op with hop | rfl | rfl
    · rw [readBackward_symbol hop] at h
      split at h <;> cases h
    · cases h
    · rw [readBackward_exit] at h
      split at h
      · cases h
      · split at h
        · obtain rfl := Except.error.inj h
          exact ⟨_, rfl⟩
        · cases h

/-- A reader that has not finished shows so at the given column, and it is not at its beginning. -/
lemma showsAt_of_finish {infixOrder : List Token}
    (h : p.finish infixOrder column = .error f) :
    f.ShowsAt column ∧ (p.depth ≠ 0 ∨ infixOrder ≠ []) := by
  unfold finish at h
  split at h
  · rename_i hdepth
    obtain rfl := Except.error.inj h
    exact ⟨⟨_, rfl⟩, .inl hdepth⟩
  · split at h
    · cases h
    · rename_i horder
      obtain rfl := Except.error.inj h
      refine ⟨⟨_, rfl⟩, .inr ?_⟩
      rintro rfl
      cases horder

/-! ## Passes -/

/-- From the left, the fault of a pass shows where a visible lexeme of the row begins. -/
lemma showsAt_of_pass_forward (hrow : HasNumerals row) {start pos : Int}
    (h : (Pass.forward step p start pos row).progress = .error f) :
    ∃ column, BeginsAt row column ∧ f.ShowsAt (pos + column) := by
  induction row generalizing p start pos with
  | nil => cases h
  | cons l row ih =>
    unfold Pass.forward at h
    split at h
    · rename_i hread
      obtain rfl := Except.error.inj h
      obtain ⟨hl, hshows⟩ := showsAt_of_readForward hrow hread
      refine ⟨0, beginsAt_zero hl, ?_⟩
      exact (Int.add_zero pos).symm ▸ hshows
    · obtain ⟨column, hbegins, hshows⟩ := ih hrow.tail h
      refine ⟨l.length + column, hbegins.cons l, ?_⟩
      rwa [Int.natCast_add, ← Int.add_assoc]

/-- From the left, the latest lexeme of a pass without a fault is a visible one of the row, unless
there is none in it. -/
lemma start_of_pass_forward {start pos : Int}
    (h : (Pass.forward step p start pos row).progress = .ok q) :
    (visible row = [] ∧ (Pass.forward step p start pos row).start = start) ∨
      ∃ column, BeginsAt row column ∧
        (Pass.forward step p start pos row).start = pos + column := by
  induction row generalizing p start pos with
  | nil => exact .inl ⟨rfl, rfl⟩
  | cons l row ih =>
    unfold Pass.forward at h ⊢
    split at h
    · cases h
    · rename_i hread
      rcases ih h with ⟨hvisible, hstart⟩ | ⟨column, hbegins, hstart⟩
      · rw [hstart]
        cases hl : l.isWhite with
        | true => exact .inl ⟨by simp [visible, hl, ← hvisible], rfl⟩
        | false => exact .inr ⟨0, beginsAt_zero hl, (Int.add_zero pos).symm⟩
      · refine .inr ⟨l.length + column, hbegins.cons l, ?_⟩
        rw [hstart, Int.natCast_add, Int.add_assoc]

/-- From the right, the fault of a pass shows within the row. -/
lemma showsAt_of_pass_backward (hrow : HasNumerals row) {start pos : Int}
    (h : (Pass.backward step p start pos row).progress = .error f) :
    ∃ n, 0 < n ∧ n ≤ width row ∧ f.ShowsAt (pos - (n : Nat)) := by
  induction row generalizing p start pos with
  | nil => cases h
  | cons l row ih =>
    have hlength := hrow.length_pos
    rw [Pass.backward] at h
    split at h
    · rename_i hread
      obtain rfl := Except.error.inj h
      exact ⟨l.length, hlength, Nat.le_add_right _ _, showsAt_of_readBackward hrow hread⟩
    · cases h
    · obtain ⟨n, -, hn, hshows⟩ := ih hrow.tail h
      refine ⟨l.length + n, Nat.add_pos_left hlength n, Nat.add_le_add_left hn _, ?_⟩
      rwa [Int.natCast_add, ← Int.sub_sub]

end Progress

/-! ## Texts -/

open Progress

variable {t : Text} {f : Fault}

/-- From the left, the fault of a text shows at the first character of a visible lexeme. -/
theorem showsAt_of_parse_forward (h : parse .forward t = .error f) :
    ∃ column, BeginsAt (split .forward t) column ∧ f.ShowsAt column := by
  by_cases ht : t = []
  · subst ht
    cases h
  generalize hpass : Pass.forward Settings.standard.nestingStep (.start .forward) 0 0
    (split .forward t) = pass
  rw [parse_forward_eq ht hpass] at h
  cases hprogress : pass.progress with
  | error g =>
    rw [hprogress] at h
    obtain rfl := Except.error.inj h
    subst hpass
    obtain ⟨column, hbegins, hshows⟩ :=
      showsAt_of_pass_forward (hasNumerals_split .forward t) hprogress
    exact ⟨column, hbegins, by rwa [Int.zero_add] at hshows⟩
  | ok q =>
    rw [hprogress] at h
    obtain ⟨hshows, hunfinished⟩ := showsAt_of_finish h
    subst hpass
    rcases start_of_pass_forward hprogress with ⟨hvisible, -⟩ | ⟨column, hbegins, hstart⟩
    · -- A reader that has taken nothing has finished.
      have hreads := pass_forward_eq_ok_iff.mp hprogress
      rw [hvisible] at hreads
      obtain rfl := Reads.nil_iff.mp hreads
      simp [Progress.start] at hunfinished
    · rw [hstart, Int.zero_add] at hshows
      exact ⟨column, hbegins, hshows⟩

/-- From the right, the fault of a text shows at one of its characters. -/
theorem showsAt_of_parse_backward (h : parse .backward t = .error f) :
    ∃ column : Nat, column < t.length ∧ f.ShowsAt column := by
  have hwidth : width (split .backward (t.take t.length).reverse) = t.length := by
    rw [width_split, List.length_reverse, List.take_length]
  have hwhole : Cursor.whole t .backward = .place t t.length none none := rfl
  rw [parse, hwhole, Cursor.parse_backward_fst (Nat.le_refl _) rfl] at h
  rcases hprogress : (Pass.backward Settings.standard.nestingStep (.start .backward) t.length
      t.length (split .backward (t.take t.length).reverse)).progress with g | q
  · rw [hprogress] at h
    obtain rfl := Except.error.inj h
    obtain ⟨m, hm, hle, hshows⟩ :=
      showsAt_of_pass_backward (hasNumerals_split .backward _) hprogress
    rw [hwidth] at hle
    refine ⟨t.length - m, by omega, ?_⟩
    rwa [Int.ofNat_sub hle]
  · rw [hprogress] at h
    obtain ⟨hshows, hunfinished⟩ := showsAt_of_finish h
    -- Where the reader has taken nothing, it has finished.
    obtain ⟨passed, left, hrow, hpassed, hreads⟩ := exists_reads_of_pass_backward hprogress
    have hnumerals := hasNumerals_split .backward (t.take t.length).reverse
    rw [hrow] at hnumerals
    have hne : passed ≠ [] := by
      rintro rfl
      obtain rfl := Reads.nil_iff.mp hreads
      simp [Progress.start] at hunfinished
    have hsome := (hnumerals.mono (List.subset_append_left passed left)).width_pos hne
    rw [hrow, width_append] at hwidth
    refine ⟨t.length - width passed, by omega, ?_⟩
    rwa [Int.ofNat_sub (by omega), ← hpassed]

/-- A text that gives no tokens is malformed. -/
theorem showsIn_of_parse {dir : Direction} : ∀ f, parse dir t = .error f → f.ShowsIn dir t := by
  intro f h
  cases dir with
  | forward =>
    obtain ⟨column, hbegins, hshows⟩ := showsAt_of_parse_forward h
    obtain ⟨c, hc, hwhite⟩ := hbegins.exists_getElem?
    have hinside : column < t.length := (List.getElem?_eq_some_iff.mp hc).1
    exact ⟨column, hshows, hinside, fun _ => ⟨c, hc, hwhite⟩⟩
  | backward =>
    obtain ⟨column, hinside, hshows⟩ := showsAt_of_parse_backward h
    exact ⟨column, hshows, hinside, fun hdir => by cases hdir⟩

/-- A text that has no answer is malformed, or its tokens have no value. -/
theorem showsIn_or_valueless_of_evaluateText {dir : Direction} : ∀ f,
    evaluateText dir t = .error f → f.ShowsIn dir t ∨ ∃ cause, f = .valueless cause := by
  have hvalue : ∀ (ts : List Token) f, (evaluate ts).mapError Fault.valueless = .error f →
      f.ShowsIn dir t ∨ ∃ cause, f = .valueless cause := by
    intro ts f h
    cases hevaluate : evaluate ts with
    | ok v => simp [hevaluate, Except.mapError] at h
    | error cause =>
      rw [hevaluate] at h
      exact .inr ⟨cause, (Except.error.inj h).symm⟩
  rw [evaluateText, Cursor.evaluate_fst]
  exact fault_of_bind (fun f h => .inl (showsIn_of_parse f h)) hvalue

/-- The fault of a text that has no answer is one of the expression. -/
lemma isOfExpression_of_evaluateText {dir : Direction} (h : evaluateText dir t = .error f) :
    f.isOfExpression := by
  rcases showsIn_or_valueless_of_evaluateText f h with ⟨_, ⟨_, rfl⟩, -⟩ | ⟨_, rfl⟩ <;> rfl

/-- Every text is parsed into tokens or is malformed, and it is evaluated, or it is malformed, or
its tokens have no value.  Where it is malformed, this shows at one of its characters, from the left
at one that is not white. -/
theorem answer_or_showsIn (dir : Direction) (t : Text) :
    ((∃ ts, parse dir t = .ok ts) ∨ ∃ f, parse dir t = .error f ∧ f.ShowsIn dir t) ∧
      ((∃ v, evaluateText dir t = .ok v) ∨ ∃ f, evaluateText dir t = .error f ∧
        (f.ShowsIn dir t ∨ ∃ cause, f = .valueless cause)) := by
  constructor
  · cases hparse : parse dir t with
    | ok ts => exact .inl ⟨ts, rfl⟩
    | error f => exact .inr ⟨f, rfl, showsIn_of_parse f hparse⟩
  · cases hvalue : evaluateText dir t with
    | ok v => exact .inl ⟨v, rfl⟩
    | error f => exact .inr ⟨f, rfl, showsIn_or_valueless_of_evaluateText f hvalue⟩

end Reckoner
