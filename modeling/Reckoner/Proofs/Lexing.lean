import Reckoner.Proofs.Grammar

/-!
# Splitting what has been spelled

A row of lexemes without neighbouring numerals is found again when its text is split, from the left
and from the right (`split_joined`), and also where it stands in front of other text
(`split_joined_append`).  Hence a text that spells a row of the grammar has exactly the lexemes of
this row, white characters apart, in both directions (`Spells.visible_split`), and any text of known
lexemes spells them (`spells_visible_split`).
-/

namespace Reckoner

namespace Lexeme

/-- The text of a row of lexemes, both in reading order. -/
def joined (dir : Direction) (row : List Lexeme) : Text := row.flatMap fun l => written dir l.text

/-- The lexemes of a row that are not white. -/
def visible (row : List Lexeme) : List Lexeme := row.filter fun l => !l.isWhite

/-- A white lexeme is a white character. -/
lemma exists_eq_white {l : Lexeme} (hl : l.isWhite) : ∃ c, l = white c := by
  cases l with
  | white c => exact ⟨c, rfl⟩
  | numeral | symbol | foreign => cases hl

lemma visible_cons {l : Lexeme} (hl : l.isWhite = false) (row : List Lexeme) :
    visible (l :: row) = l :: visible row := by
  simp [visible, hl]

lemma visible_reverse (row : List Lexeme) : visible row.reverse = (visible row).reverse :=
  List.filter_reverse

/-- Two rows, one after the other, have their texts one after the other. -/
lemma joined_append (dir : Direction) (row more : List Lexeme) :
    joined dir (row ++ more) = joined dir row ++ joined dir more :=
  List.flatMap_append

/-- A text is the text of its lexemes. -/
lemma joined_split (dir : Direction) (t : Text) : joined dir (split dir t) = t :=
  flatMap_split dir t

/-- The text of a row has as many characters as the row. -/
lemma length_joined (dir : Direction) (row : List Lexeme) : (joined dir row).length = width row :=
  length_flatMap dir row

/-- Two rows, one after the other, have the characters of both. -/
lemma width_append (row more : List Lexeme) : width (row ++ more) = width row + width more := by
  rw [← length_joined .forward, joined_append, List.length_append, length_joined, length_joined]

/-- Read from the other end, the lexemes of a row come in the reverse order. -/
lemma joined_backward_reverse (row : List Lexeme) :
    joined .backward row.reverse = (joined .forward row).reverse := by
  simp [joined, written, List.reverse_flatMap, Function.comp_def]

/-- Turned over, the text of a row that is read from the right is in the order of writing. -/
lemma reverse_joined_backward (row : List Lexeme) :
    (joined .backward row).reverse = joined .forward row.reverse := by
  have hturned := joined_backward_reverse row.reverse
  rw [List.reverse_reverse] at hturned
  rw [hturned, List.reverse_reverse]

/-- Where the lexemes of a text from the right are split into two rows, the text of the first one
stands at the end of the text, and that of the second one in front of it. -/
lemma joined_reverse_of_split_backward {t : Text} {row left : List Lexeme}
    (h : split .backward t.reverse = row ++ left) :
    joined .forward left.reverse ++ joined .forward row.reverse = t := by
  rw [← reverse_joined_backward, ← reverse_joined_backward, ← List.reverse_append, ← joined_append,
    ← h, joined_split, List.reverse_reverse]

/-- White lexemes of a text are characters of the text. -/
lemma mem_of_white_mem_split {dir : Direction} {t : Text} {c : Char} (h : white c ∈ split dir t) :
    c ∈ t := by
  rw [← joined_split dir t]
  refine List.mem_flatMap.mpr ⟨white c, h, ?_⟩
  simp [text]

/-- The lexemes that a text of digits, points, symbols and white characters can have. -/
def IsKnown : Lexeme → Prop
  | numeral t => Numeral.IsNumeral t
  | symbol _ => True
  | white c => Text.isWhite c
  | foreign _ => False

/-! ## Splitting a joined row -/

/-- Characters that are passed over have no lexemes. -/
lemma splitFrom_eq_split_drop (dir : Direction) (skip : Nat) (cs : Text) :
    splitFrom dir skip cs = split dir (cs.drop skip) := by
  induction cs generalizing skip with
  | nil => simp [split, splitFrom]
  | cons c cs ih =>
    cases skip with
    | zero => rfl
    | succ skip => simpa [splitFrom] using ih skip

/-- Behind the first lexemes of a text stand the lexemes of what is left of the text. -/
lemma split_eq_append {dir : Direction} {cs : Text} {row more : List Lexeme}
    (h : split dir cs = row ++ more) : more = split dir (cs.drop (width row)) := by
  induction row generalizing cs with
  | nil => exact h.symm
  | cons l row ih =>
    cases cs with
    | nil => simp [split, splitFrom] at h
    | cons c cs =>
      cases hreach : Numeral.reach dir (c :: cs) with
      | zero =>
        rw [split, splitFrom, hreach] at h
        obtain ⟨rfl, hrest⟩ := List.cons.inj h
        have hlength : (ofChar c).length = 1 := by rw [length, text_ofChar, List.length_singleton]
        rw [ih hrest, width, hlength, Nat.add_comm, List.drop_succ_cons]
      | succ n =>
        rw [split, splitFrom, hreach] at h
        obtain ⟨rfl, hrest⟩ := List.cons.inj h
        have hlength : (numeral (written dir ((c :: cs).take (n + 1)))).length = n + 1 := by
          rw [← hreach]
          exact Numeral.length_written_take_reach dir (c :: cs)
        have hbehind : split dir (cs.drop n) = row ++ more :=
          (splitFrom_eq_split_drop dir n cs).symm.trans hrest
        rw [ih hbehind, width, hlength, List.drop_drop, Nat.add_right_comm, List.drop_succ_cons]

/-- A character that belongs to no numeral is a lexeme of its own. -/
lemma split_cons (dir : Direction) {c : Char} (h : Numeral.isPart c = false) (cs : Text) :
    split dir (c :: cs) = ofChar c :: split dir cs := by
  rw [split, splitFrom, Numeral.reach_cons_eq_zero dir h]
  rfl

/-- Symbols and white characters belong to no numeral and are found again. -/
lemma exists_char_of_isKnown {l : Lexeme} (hl : l.IsKnown) (hn : l.isNumeral = false) :
    ∃ c, l.text = [c] ∧ Numeral.isPart c = false ∧ ofChar c = l := by
  cases l with
  | numeral => simp [isNumeral] at hn
  | symbol op => exact ⟨op.toChar, rfl, by cases op <;> rfl, by cases op <;> rfl⟩
  | white c =>
    refine ⟨c, rfl, ?_⟩
    simp only [IsKnown, Text.isWhite, Text.isBlank, Bool.or_eq_true, beq_iff_eq] at hl
    rcases hl with ((((((rfl | rfl) | rfl) | rfl) | rfl) | rfl) | rfl) <;> exact ⟨rfl, rfl⟩
  | foreign => exact hl.elim

/-- A numeral in front of a text in which it does not go on is split off. -/
lemma split_numeral_append (dir : Direction) {w t : Text} (hw : Numeral.IsNumeral w)
    (ht : ∀ c ∈ t.head?, Numeral.isPart c = false) :
    split dir (written dir w ++ t) = numeral w :: split dir t := by
  have hreach := Numeral.reach_written_append dir hw ht
  have hlen : (written dir w).length = w.length := by cases dir <;> simp [written]
  obtain ⟨n, hn⟩ := Nat.exists_eq_succ_of_ne_zero (List.length_pos_iff.mpr hw.ne_nil).ne'
  have htake : (written dir w ++ t).take (n + 1) = written dir w := by
    rw [← Nat.succ_eq_add_one, ← hn, ← hlen, List.take_left]
  have hdrop : (written dir w ++ t).drop (n + 1) = t := by
    rw [← Nat.succ_eq_add_one, ← hn, ← hlen, List.drop_left]
  rw [hn] at hreach
  cases hcs : written dir w ++ t with
  | nil =>
    have hzero := congrArg List.length hcs
    simp [hlen, hn] at hzero
  | cons c cs =>
    rw [hcs] at hreach htake hdrop
    rw [split, splitFrom, hreach]
    simp only [htake, written_written, splitFrom_eq_split_drop]
    rw [← List.drop_succ_cons, hdrop]

/-- A lexeme in front of a text is split off, unless it is a numeral that goes on in the text. -/
lemma split_written_append (dir : Direction) {l : Lexeme} {t : Text} (hl : l.IsKnown)
    (ht : l.isNumeral → ∀ c ∈ t.head?, Numeral.isPart c = false) :
    split dir (written dir l.text ++ t) = l :: split dir t := by
  cases hn : l.isNumeral with
  | false =>
    obtain ⟨c, htext, hpart, hchar⟩ := exists_char_of_isKnown hl hn
    rw [htext, written_singleton, List.singleton_append, split_cons dir hpart, hchar]
  | true =>
    cases l with
    | numeral w => exact split_numeral_append dir hl (ht hn)
    | symbol | white | foreign => simp [isNumeral] at hn

/-- The text of a row that does not begin with a numeral begins with a character that belongs to no
numeral. -/
lemma isPart_head_joined_append (dir : Direction) {row : List Lexeme} {t : Text}
    (hrow : ∀ l ∈ row, l.IsKnown) (hhead : ∀ l ∈ row.head?, l.isNumeral = false)
    (ht : ∀ c ∈ t.head?, Numeral.isPart c = false) :
    ∀ c ∈ (joined dir row ++ t).head?, Numeral.isPart c = false := by
  cases row with
  | nil => exact ht
  | cons l row =>
    obtain ⟨c, htext, hpart, -⟩ := exists_char_of_isKnown (hrow l (by simp)) (hhead l rfl)
    simp [joined, htext, hpart]

/-- A row of lexemes without neighbouring numerals is found again in front of a text in which no
numeral goes on. -/
theorem split_joined_append (dir : Direction) {row : List Lexeme} {t : Text}
    (hrow : ∀ l ∈ row, l.IsKnown) (hapart : row.IsChain Grammar.Apart)
    (ht : ∀ c ∈ t.head?, Numeral.isPart c = false) :
    split dir (joined dir row ++ t) = row ++ split dir t := by
  induction row with
  | nil => rfl
  | cons l row ih =>
    obtain ⟨hhead, htail⟩ := List.isChain_cons.mp hapart
    obtain ⟨hl, hrest⟩ := List.forall_mem_cons.mp hrow
    rw [joined, List.flatMap_cons, List.append_assoc, split_written_append dir hl]
    · exact congrArg (l :: ·) (ih hrest htail)
    · intro hnum
      -- What follows a numeral is not a numeral.
      have hnext : ∀ m ∈ row.head?, m.isNumeral = false :=
        fun m hm => by simpa [Grammar.Apart, hnum] using hhead m hm
      exact isPart_head_joined_append dir hrest hnext ht

/-- A row of lexemes without neighbouring numerals is found again in its text. -/
theorem split_joined (dir : Direction) {row : List Lexeme} (hrow : ∀ l ∈ row, l.IsKnown)
    (hapart : row.IsChain Grammar.Apart) : split dir (joined dir row) = row := by
  have hnothing : ∀ c ∈ ([] : Text).head?, Numeral.isPart c = false := by simp
  simpa [split, splitFrom] using split_joined_append dir hrow hapart hnothing

/-! ## Neighbouring numerals -/

/-- The lexeme of a single character is no numeral. -/
lemma isNumeral_ofChar (c : Char) : (ofChar c).isNumeral = false := by
  unfold ofChar
  cases Operator.ofChar? c with
  | some op => rfl
  | none => cases Text.isWhite c <;> rfl

/-- From the right, a character that is no digit is a lexeme of its own. -/
lemma split_backward_cons {c : Char} (hc : c.isDigit = false) (cs : Text) :
    split .backward (c :: cs) = ofChar c :: split .backward cs := by
  have hnothing : Numeral.reach .backward (c :: cs) = 0 := by
    simp [Numeral.reach, Numeral.reachBackward, hc]
  rw [split, splitFrom, hnothing]
  rfl

/-- A white character belongs to no numeral, and its lexeme is white. -/
lemma isPart_and_ofChar_of_isWhite {c : Char} (hc : Text.isWhite c) :
    Numeral.isPart c = false ∧ ofChar c = white c := by
  have hknown : (white c).IsKnown := hc
  obtain ⟨d, htext, hpart, hchar⟩ := exists_char_of_isKnown hknown rfl
  obtain rfl := (List.cons.inj htext).1
  exact ⟨hpart, hchar⟩

/-- A white character is a lexeme of its own. -/
lemma split_white_cons (dir : Direction) {c : Char} (hc : Text.isWhite c) (cs : Text) :
    split dir (c :: cs) = white c :: split dir cs := by
  obtain ⟨hpart, hchar⟩ := isPart_and_ofChar_of_isWhite hc
  rw [split_cons dir hpart, hchar]

/-- Characters that belong to no numeral are lexemes of their own. -/
lemma split_chars_append (dir : Direction) {cs : Text} (hcs : ∀ c ∈ cs, Numeral.isPart c = false)
    (ds : Text) : split dir (cs ++ ds) = cs.map ofChar ++ split dir ds := by
  induction cs with
  | nil => rfl
  | cons c cs ih =>
    obtain ⟨hc, hrest⟩ := List.forall_mem_cons.mp hcs
    rw [List.cons_append, split_cons dir hc, ih hrest]
    rfl

/-- White characters in front of a text are lexemes of their own. -/
lemma split_whites_append (dir : Direction) {cs : Text} (hcs : ∀ c ∈ cs, Text.isWhite c)
    (ds : Text) : split dir (cs ++ ds) = cs.map white ++ split dir ds := by
  have hpart : ∀ c ∈ cs, Numeral.isPart c = false :=
    fun c hc => (isPart_and_ofChar_of_isWhite (hcs c hc)).1
  rw [split_chars_append dir hpart,
    List.map_congr_left fun c hc => (isPart_and_ofChar_of_isWhite (hcs c hc)).2]

/-- Single characters are as many as the characters of their lexemes. -/
lemma width_map_ofChar (cs : Text) : width (cs.map ofChar) = cs.length := by
  induction cs with
  | nil => rfl
  | cons c cs ih =>
    rw [List.map_cons, width, ih, length, text_ofChar, List.length_singleton, List.length_cons,
      Nat.add_comm]

/-- From the right, no two of the lexemes behind the skipped characters are numerals that stand side
by side. -/
lemma isChain_splitFrom_backward (skip : Nat) (cs : Text) :
    (splitFrom .backward skip cs).IsChain Grammar.Apart := by
  induction cs generalizing skip with
  | nil => exact .nil
  | cons c cs ih =>
    cases skip with
    | succ skip => exact ih skip
    | zero =>
      cases hreach : Numeral.reach .backward (c :: cs) with
      | zero =>
        rw [splitFrom, hreach]
        refine List.isChain_cons.mpr ⟨fun m _ => ?_, ih 0⟩
        simp [Grammar.Apart, isNumeral_ofChar]
      | succ n =>
        rw [splitFrom, hreach]
        refine List.isChain_cons.mpr ⟨fun m hm => ?_, ih n⟩
        -- No digit is left behind the numeral, and without a digit no numeral begins.
        have hfound : Numeral.reachBackward (c :: cs) = n + 1 := hreach
        have hbehind : ∀ d ∈ ((c :: cs).drop (Numeral.reachBackward (c :: cs))).head?,
            d.isDigit = false := Numeral.isDigit_head_drop_reachBackward (by simp [hfound])
        rw [hfound, List.drop_succ_cons] at hbehind
        rw [splitFrom_eq_split_drop] at hm
        cases hrest : cs.drop n with
        | nil => simp [hrest, split, splitFrom] at hm
        | cons d ds =>
          rw [hrest] at hm hbehind
          rw [split_backward_cons (hbehind d rfl)] at hm
          obtain rfl := Option.some.inj hm
          simp [Grammar.Apart, isNumeral_ofChar]

/-- From the right, no two of the lexemes of a text are numerals that stand side by side. -/
lemma isChain_split_backward (t : Text) : (split .backward t).IsChain Grammar.Apart :=
  isChain_splitFrom_backward 0 t

/-! ## Lexemes and spellings -/

/-- The lexeme of a single character is known or foreign. -/
lemma isKnown_or_foreign_ofChar (c : Char) : (ofChar c).IsKnown ∨ ∃ d, ofChar c = foreign d := by
  unfold ofChar
  cases Operator.ofChar? c with
  | some op => exact .inl trivial
  | none =>
    by_cases hc : Text.isWhite c
    · exact .inl (by simp [hc, IsKnown])
    · exact .inr ⟨c, by simp [hc]⟩

/-- The lexemes behind the skipped characters are known or foreign. -/
lemma isKnown_or_foreign_of_mem_splitFrom (dir : Direction) {skip : Nat} {t : Text} {l : Lexeme}
    (h : l ∈ splitFrom dir skip t) : l.IsKnown ∨ ∃ c, l = foreign c := by
  induction t generalizing skip with
  | nil => simp [splitFrom] at h
  | cons c cs ih =>
    cases skip with
    | succ skip => exact ih h
    | zero =>
      cases hreach : Numeral.reach dir (c :: cs) with
      | zero =>
        rw [splitFrom, hreach] at h
        rcases List.mem_cons.mp h with rfl | h
        · exact isKnown_or_foreign_ofChar c
        · exact ih h
      | succ n =>
        rw [splitFrom, hreach] at h
        rcases List.mem_cons.mp h with rfl | h
        · have hne : Numeral.reach dir (c :: cs) ≠ 0 := by simp [hreach]
          have hw := Numeral.isNumeral_take_reach dir hne
          rw [hreach] at hw
          exact .inl hw
        · exact ih h

/-- The numerals among the lexemes are numerals. -/
def HasNumerals (row : List Lexeme) : Prop := ∀ t, numeral t ∈ row → Numeral.IsNumeral t

/-- The lexemes of a text have numerals. -/
lemma hasNumerals_split (dir : Direction) (t : Text) : HasNumerals (split dir t) := by
  intro w hw
  rcases isKnown_or_foreign_of_mem_splitFrom dir hw with hknown | ⟨c, hc⟩
  · exact hknown
  · cases hc

/-- Some of the lexemes of a row have the numerals that the row has. -/
lemma HasNumerals.mono {row part : List Lexeme} (h : HasNumerals row) (hpart : part ⊆ row) :
    HasNumerals part :=
  fun t ht => h t (hpart ht)

/-- The visible lexemes of a row have the numerals that the row has. -/
lemma HasNumerals.visible {row : List Lexeme} (h : HasNumerals row) : HasNumerals (visible row) :=
  h.mono (List.filter_subset_self row)

/-- The text of a row spells its visible lexemes. -/
lemma spells_visible {row : List Lexeme} (h : ∀ l ∈ row, l.IsKnown) :
    Grammar.Spells (visible row) (joined .forward row) := by
  induction row with
  | nil => exact .nil
  | cons l row ih =>
    obtain ⟨hl, hothers⟩ := List.forall_mem_cons.mp h
    have hrest := ih hothers
    cases l with
    | numeral w => exact .lexeme (.numeral w) hrest
    | symbol op => exact .lexeme (.symbol op) hrest
    | white c => exact .white hl hrest
    | foreign c => exact hl.elim

/-- A text of known lexemes spells those that are visible. -/
theorem spells_visible_split {t : Text} (h : ∀ l ∈ split .forward t, l.IsKnown) :
    Grammar.Spells (visible (split .forward t)) t := by
  have hspells := spells_visible h
  rwa [joined_split] at hspells

end Lexeme

namespace Grammar

open Lexeme

/-- Lexemes of the grammar are known and not white. -/
lemma IsTerminal.isKnown {l : Lexeme} (h : IsTerminal l) : l.IsKnown ∧ l.isWhite = false := by
  cases l with
  | numeral => exact ⟨h, rfl⟩
  | symbol => exact ⟨h, rfl⟩
  | white | foreign => exact h.elim

/-- What is known and not white is a lexeme of the grammar. -/
lemma isTerminal_of_mem_visible {row : List Lexeme} (h : ∀ l ∈ row, l.IsKnown) :
    ∀ l ∈ visible row, IsTerminal l := by
  intro l hl
  obtain ⟨hmem, hwhite⟩ := List.mem_filter.mp hl
  have hknown := h l hmem
  cases l with
  | numeral | symbol => exact hknown
  | white => simp [isWhite] at hwhite
  | foreign => exact hknown.elim

/-- A spelling is the text of a row that has white lexemes between those that are spelled. -/
lemma Spells.exists_row {ls : List Lexeme} {t : Text} (h : Spells ls t)
    (hls : ∀ l ∈ ls, IsTerminal l) (hapart : ls.IsChain Apart) :
    ∃ row, joined .forward row = t ∧ visible row = ls ∧ (∀ l ∈ row, l.IsKnown) ∧
      row.IsChain Apart := by
  induction h with
  | nil => exact ⟨[], rfl, rfl, by simp, .nil⟩
  | @white c ls t hc _ ih =>
    obtain ⟨row, rfl, hvisible, hknown, hchain⟩ := ih hls hapart
    refine ⟨.white c :: row, rfl, hvisible, ?_, ?_⟩
    · exact List.forall_mem_cons.mpr ⟨hc, hknown⟩
    · exact List.isChain_cons.mpr ⟨by simp [Apart, Lexeme.isNumeral], hchain⟩
  | @lexeme ls t l _ ih =>
    obtain ⟨hhead, htail⟩ := List.isChain_cons.mp hapart
    obtain ⟨hterminal, hothers⟩ := List.forall_mem_cons.mp hls
    obtain ⟨row, rfl, hvisible, hknown, hchain⟩ := ih hothers htail
    obtain ⟨hl, hwhite⟩ := hterminal.isKnown
    refine ⟨l :: row, rfl, by rw [visible_cons hwhite, hvisible], ?_, ?_⟩
    · exact List.forall_mem_cons.mpr ⟨hl, hknown⟩
    · refine List.isChain_cons.mpr ⟨?_, hchain⟩
      -- The next lexeme of the row is white, or it is the next one that is spelled.
      intro m hm
      cases row with
      | nil => simp at hm
      | cons n row =>
        obtain rfl := Option.some.inj hm
        cases n with
        | white => simp [Apart, Lexeme.isNumeral]
        | symbol op => exact apart_symbol l op
        | numeral w =>
          have hnumeral : (Lexeme.numeral w).isWhite = false := rfl
          exact hhead (.numeral w) (by simp [← hvisible, visible_cons hnumeral])
        | foreign c => exact (hknown (.foreign c) (by simp)).elim

/-- A row without neighbouring numerals has none when it is turned over. -/
lemma isChain_apart_reverse {row : List Lexeme} (h : row.IsChain Apart) :
    row.reverse.IsChain Apart := by
  rw [List.isChain_reverse]
  exact h.imp fun l m hlm hml => hlm ⟨hml.2, hml.1⟩

/-- A spelled text has the lexemes that it spells, from the left and from the right. -/
theorem Spells.visible_split {ls : List Lexeme} {t : Text} (h : Spells ls t)
    (hls : ∀ l ∈ ls, IsTerminal l) (hapart : ls.IsChain Apart) :
    visible (split .forward t) = ls ∧ visible (split .backward t.reverse) = ls.reverse := by
  obtain ⟨row, rfl, rfl, hknown, hchain⟩ := h.exists_row hls hapart
  constructor
  · rw [split_joined .forward hknown hchain]
  · rw [← joined_backward_reverse, split_joined .backward (by simpa using hknown)
      (isChain_apart_reverse hchain), visible_reverse]

end Grammar

end Reckoner
