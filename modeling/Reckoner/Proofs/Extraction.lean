import Reckoner.Proofs.Retrieval
import Reckoner.Session.Basic
import Reckoner.Span

/-!
# The expression in front of a position is found

Extraction knows no grammar: it takes in lexemes from the right and counts parentheses.  Yet in
front of a position at which a sentence ends it finds this sentence and nothing else, wherever the
text to the left of the sentence ends with a barrier and the text to the right does not begin with a
closing parenthesis (`extract_sentence`).

Taking in is a fold over the lexemes (`Span.reachLeft_append`), and what is found is the longest end
of the text that is taken in as a whole (`Span.find?_eq_some_iff`).  A derivable row, from the right,
leaves the number of waiting parentheses as it is (`Grammar.Derives.foldlM_takeIn`): so no opening
parenthesis of a sentence stops the scan, and none of its closing ones waits in the end.
-/

namespace Reckoner

open Lexeme Grammar

/-- The characters that no expression to their right reaches beyond, if nothing is open there: all
but digits, points, blanks, arithmetic operators and closing parentheses. -/
def Text.isBarrier (c : Char) : Bool :=
  !Numeral.isPart c && !isBlank c && !isArithmetic c && c != ')'

/-- The characters at which an expression to their right begins, if nothing is open there: all but
digits, arithmetic operators, closing parentheses and, where they are wanted, blanks. -/
def Text.isOutside (blanks : Bool) (c : Char) : Bool :=
  !c.isDigit && !(blanks && isBlank c) && !isArithmetic c && c != ')'

/-- Barriers are outside, and so are points that stand alone. -/
lemma Text.isOutside_of_isBarrier {c : Char} (hc : Text.isBarrier c) : Text.isOutside true c := by
  simp only [Text.isBarrier, Numeral.isPart, Bool.and_eq_true, Bool.not_eq_true',
    Bool.or_eq_false_iff] at hc
  obtain ⟨⟨⟨⟨hdigit, -⟩, hblank⟩, hoperator⟩, hclosing⟩ := hc
  simp [Text.isOutside, hdigit, hblank, hoperator, hclosing]

/-- A barrier belongs to no numeral. -/
lemma Text.isPart_of_isBarrier {c : Char} (hc : Text.isBarrier c) : Numeral.isPart c = false := by
  simp only [Text.isBarrier, Bool.and_eq_true, Bool.not_eq_true'] at hc
  exact hc.1.1.1

namespace Span

variable {blanks : Bool} {waiting left : Nat} {row : List Lexeme}

/-- Where a row is taken in as a whole, the reach goes on behind it. -/
lemma reachLeft_append (h : row.foldlM (takeIn blanks) waiting = some left) (more : List Lexeme) :
    reachLeft blanks waiting (row ++ more) =
      (width row + (reachLeft blanks left more).1, (reachLeft blanks left more).2) := by
  induction row generalizing waiting with
  | nil =>
    obtain rfl := Option.some.inj h
    simp [width]
  | cons l row ih =>
    obtain ⟨between, hl, hrow⟩ := Option.bind_eq_some_iff.mp h
    rw [List.cons_append, reachLeft, hl]
    simp only [ih hrow, width, Nat.add_assoc]

/-- What is reached is the front of the row, taken in as a whole, and the lexeme behind it is not
taken in. -/
lemma exists_taken_of_reachLeft {n : Nat} (h : reachLeft blanks waiting row = (n, left)) :
    ∃ taken more, row = taken ++ more ∧ width taken = n ∧
      taken.foldlM (takeIn blanks) waiting = some left ∧
      ∀ l ∈ more.head?, takeIn blanks left l = none := by
  induction row generalizing waiting n with
  | nil =>
    obtain ⟨rfl, rfl⟩ := Prod.mk.inj h
    exact ⟨[], [], rfl, rfl, rfl, by simp⟩
  | cons l row ih =>
    rw [reachLeft] at h
    split at h
    · rename_i hstop
      obtain ⟨rfl, rfl⟩ := Prod.mk.inj h
      refine ⟨[], l :: row, rfl, rfl, rfl, ?_⟩
      rintro m hm
      obtain rfl := Option.some.inj hm
      exact hstop
    · rename_i between hl
      obtain ⟨rfl, hleft⟩ := Prod.mk.inj h
      obtain ⟨taken, more, rfl, hwidth, htaken, hstop⟩ := ih (Prod.ext rfl hleft)
      refine ⟨l :: taken, more, rfl, by rw [width, hwidth], ?_, hstop⟩
      rw [List.foldlM_cons, hl]
      exact htaken

/-- What is taken in is known. -/
lemma isKnown_of_foldlM_takeIn (hrow : HasNumerals row)
    (h : row.foldlM (takeIn blanks) waiting = some left) : ∀ l ∈ row, l.IsKnown := by
  induction row generalizing waiting with
  | nil => exact List.forall_mem_nil _
  | cons l row ih =>
    obtain ⟨between, hl, hrest⟩ := Option.bind_eq_some_iff.mp h
    refine List.forall_mem_cons.mpr ⟨?_, ih (hrow.mono (List.subset_cons_self l row)) hrest⟩
    cases l with
    | numeral w => exact hrow w List.mem_cons_self
    | symbol op => trivial
    | white c =>
      rw [takeIn, Option.ite_none_right_eq_some, Bool.and_eq_true] at hl
      exact Text.isWhite_of_isBlank hl.1.2
    | foreign c => cases hl

/-- What is taken in is a row of known lexemes without neighbouring numerals. -/
lemma isKnown_and_isChain_of_taken {t : Text} {more : List Lexeme}
    (hsplit : split .backward t.reverse = row ++ more)
    (htaken : row.foldlM (takeIn blanks) waiting = some left) :
    (∀ l ∈ row, l.IsKnown) ∧ row.IsChain Apart := by
  have hnumerals := hasNumerals_split .backward t.reverse
  have hchain := isChain_split_backward t.reverse
  rw [hsplit] at hnumerals hchain
  exact ⟨isKnown_of_foldlM_takeIn (hnumerals.mono (List.subset_append_left row more)) htaken,
    (List.isChain_append.mp hchain).1⟩

/-- Blanks that are wanted are taken in and change nothing. -/
lemma foldlM_takeIn_visible (hrow : ∀ c, .white c ∈ row → Text.isBlank c) :
    row.foldlM (takeIn true) waiting = (visible row).foldlM (takeIn true) waiting := by
  induction row generalizing waiting with
  | nil => rfl
  | cons l row ih =>
    have hrest : ∀ c, .white c ∈ row → Text.isBlank c :=
      fun c hc => hrow c (List.mem_cons_of_mem l hc)
    cases hwhite : l.isWhite with
    | false =>
      rw [visible_cons hwhite, List.foldlM_cons, List.foldlM_cons]
      exact congrArg _ (funext fun waiting => ih hrest)
    | true =>
      obtain ⟨c, rfl⟩ := exists_eq_white hwhite
      have hc : Text.isBlank c := hrow c (by simp)
      have hvisible : visible (.white c :: row) = visible row := rfl
      rw [List.foldlM_cons, takeIn, hc, hvisible]
      exact ih hrest

/-- An arithmetic operator is taken in and changes nothing. -/
lemma takeIn_operator {op : Operator} (hop : op.isArithmetic) :
    takeIn blanks waiting (.symbol op) = some waiting := by
  cases op <;> first | rfl | exact absurd hop (by decide)

/-- Where nothing waits, a character that is no digit is not taken in exactly if it is outside. -/
lemma takeIn_ofChar_eq_none_iff {c : Char} (hc : c.isDigit = false) :
    takeIn blanks 0 (ofChar c) = none ↔ Text.isOutside blanks c := by
  unfold ofChar Text.isOutside Text.isArithmetic
  cases hsymbol : Operator.ofChar? c with
  | none =>
    have hclosing : c ≠ ')' := by
      rintro rfl
      cases hsymbol
    by_cases hwhite : Text.isWhite c
    · cases blanks <;> simp [takeIn, hwhite, hc, hclosing]
    · have hblank : Text.isBlank c = false := by
        by_contra hblank
        exact hwhite (Text.isWhite_of_isBlank (by simpa using hblank))
      simp [takeIn, hwhite, hc, hclosing, hblank]
  | some op =>
    obtain rfl := Operator.toChar_of_ofChar? hsymbol
    cases op <;> simp [takeIn, Operator.isArithmetic, Operator.toChar, Text.isBlank]

/-- From the right, a digit begins a numeral. -/
lemma exists_numeral_of_isDigit {c : Char} (hc : c.isDigit) (cs : Text) :
    ∃ w left, split .backward (c :: cs) = .numeral w :: left := by
  have hdigit : (c :: cs).takeWhile Char.isDigit = c :: cs.takeWhile Char.isDigit :=
    List.takeWhile_cons_of_pos hc
  obtain ⟨n, hn⟩ : ∃ n, Numeral.reach .backward (c :: cs) = n + 1 := by
    refine Nat.exists_eq_succ_of_ne_zero ?_
    simp only [Numeral.reach, Numeral.reachBackward, hdigit, List.length_cons, Nat.succ_ne_zero,
      if_false]
    split <;> omega
  rw [split, splitFrom, hn]
  exact ⟨_, _, rfl⟩

/-- What stands at the end of a text is not taken in where nothing waits exactly if the text ends
with an outside character or is empty. -/
lemma takeIn_head_eq_none_iff {u : Text} :
    (∀ l ∈ (split .backward u.reverse).head?, takeIn blanks 0 l = none) ↔
      ∀ c ∈ u.getLast?, Text.isOutside blanks c := by
  rcases List.eq_nil_or_concat u with rfl | ⟨u, c, rfl⟩
  · simp [split, splitFrom]
  · rw [List.concat_eq_append, List.reverse_append, List.reverse_singleton, List.singleton_append,
      List.getLast?_concat]
    simp only [Option.mem_some_iff, forall_eq']
    by_cases hc : c.isDigit
    · obtain ⟨w, left, hsplit⟩ := exists_numeral_of_isDigit hc u.reverse
      simp [hsplit, takeIn, Text.isOutside, hc]
    · rw [Bool.not_eq_true] at hc
      rw [split_backward_cons hc, ← takeIn_ofChar_eq_none_iff hc]
      simp

/-- Nothing is taken in from a text that ends with an outside character. -/
lemma reachLeft_outside {u : Text} (hu : ∀ c ∈ u.getLast?, Text.isOutside blanks c) :
    reachLeft blanks 0 (split .backward u.reverse) = (0, 0) := by
  have hstop := takeIn_head_eq_none_iff.mpr hu
  cases hsplit : split .backward u.reverse with
  | nil => rfl
  | cons l left =>
    rw [hsplit] at hstop
    rw [reachLeft, hstop l rfl]

/-- The place in front of which an expression is looked for. -/
def edge (t : Text) (pos : Int) (ahead blanks : Bool) : Int :=
  if ahead then lookAhead t blanks pos else pos

/-- A position with no closing parenthesis behind it is kept. -/
lemma edge_eq_self {t : Text} {pos : Int} {ahead : Bool} (h : ahead → t.at? pos ≠ some ')') :
    edge t pos ahead blanks = pos := by
  cases ahead with
  | false => rfl
  | true => exact if_neg (h rfl)

/-- Between two texts, the second of which does not begin with a closing parenthesis, the position
is kept. -/
lemma edge_append {t v : Text} {ahead : Bool} (hv : v.head? ≠ some ')') :
    edge (t ++ v) t.length ahead blanks = t.length := by
  refine edge_eq_self fun _ => ?_
  rwa [Text.at?, if_neg (by omega), Int.toNat_natCast, List.getElem?_append_right le_rfl,
    Nat.sub_self, ← List.head?_eq_getElem?]

/-- Where something is taken in and no parenthesis waits, it is found, but for the blanks at its
beginning. -/
lemma find?_of_reachLeft {t v : Text} {n : Nat} {pos : Int} {ahead : Bool}
    (hedge : edge (t ++ v) pos ahead blanks = t.length)
    (hreach : reachLeft blanks 0 (split .backward t.reverse) = (n, 0)) (hn : 0 < n) :
    find? (t ++ v) pos ahead blanks =
      some ⟨t.length - n + (((t ++ v).drop (t.length - n)).takeWhile Text.isBlank).length,
        t.length⟩ := by
  have hpositive : 0 < t.length := by
    refine List.length_pos_iff.mpr ?_
    rintro rfl
    obtain ⟨rfl, -⟩ := Prod.mk.inj hreach
    exact absurd hn (Nat.lt_irrefl 0)
  have hbehind : (t ++ v).behind t.length = t.reverse := by
    rw [Text.behind, Int.toNat_natCast, List.take_left]
  have hinside : ¬ ((t.length : Int) ≤ 0 ∨ ((t ++ v).length : Int) < t.length) := by
    rw [List.length_append]
    omega
  have hbalanced : ¬ (n = 0 ∨ 0 ≠ 0) := by omega
  rw [edge] at hedge
  simp only [find?, hedge, hbehind, hreach, if_neg hinside, if_neg hbalanced, Int.toNat_natCast]

/-- Read from the right, the lexemes of a row have as many characters as their text. -/
lemma width_reverse_joined (row : List Lexeme) :
    (joined .forward row.reverse).length = width row := by
  rw [← reverse_joined_backward, List.length_reverse, length_joined]

/-- Behind the text `u`, the text `w` is taken in as the lexemes of `row`, from the right, and
nothing else; every parenthesis of it has its partner in it. -/
structure Captures (blanks : Bool) (u w : Text) (row : List Lexeme) : Prop where
  ne_nil : w ≠ []
  split_eq : split .backward (u ++ w).reverse = row ++ split .backward u.reverse
  foldlM_eq : row.foldlM (takeIn blanks) 0 = some 0
  outside : ∀ c ∈ u.getLast?, Text.isOutside blanks c

/-- What is taken in has the text of its lexemes. -/
lemma Captures.joined_eq {u w : Text} (h : Captures blanks u w row) :
    joined .forward row.reverse = w := by
  have htext := joined_reverse_of_split_backward h.split_eq
  have hleft := joined_backward_reverse (split .backward u.reverse).reverse
  rw [List.reverse_reverse, joined_split] at hleft
  rw [List.reverse_injective hleft.symm] at htext
  exact List.append_cancel_left htext

/-- Where something is taken in and no parenthesis waits, the text ends with what is taken in. -/
lemma exists_captures_of_reachLeft {t : Text} {n : Nat} (hn : n ≠ 0)
    (h : reachLeft blanks 0 (split .backward t.reverse) = (n, 0)) :
    ∃ u w row, t = u ++ w ∧ w.length = n ∧ Captures blanks u w row := by
  obtain ⟨row, more, hsplit, rfl, hrow, hstop⟩ := exists_taken_of_reachLeft h
  have htext := joined_reverse_of_split_backward hsplit
  have hwidth := width_reverse_joined row
  generalize joined .forward more.reverse = u at htext
  generalize joined .forward row.reverse = w at htext hwidth
  obtain rfl := htext
  have hmore : more = split .backward u.reverse := by
    rw [split_eq_append hsplit, List.reverse_append, ← hwidth, ← List.length_reverse,
      List.drop_left]
  subst hmore
  refine ⟨u, w, row, rfl, hwidth, ?_, hsplit, hrow, takeIn_head_eq_none_iff.mp hstop⟩
  rintro rfl
  exact hn hwidth.symm

/-- What a text ends with is taken in as a whole. -/
lemma Captures.reachLeft_eq {u w : Text} (h : Captures blanks u w row) :
    reachLeft blanks 0 (split .backward (u ++ w).reverse) = (w.length, 0) := by
  rw [h.split_eq, reachLeft_append h.foldlM_eq, reachLeft_outside h.outside, Nat.add_zero,
    ← width_reverse_joined, h.joined_eq]

/-- What is found is what is taken in, but for the blanks at its beginning. -/
theorem find?_eq_some_iff {t : Text} {pos : Int} {ahead : Bool} {span : Span} :
    find? t pos ahead blanks = some span ↔
      ∃ u w v row, t = u ++ w ++ v ∧ edge t pos ahead blanks = (u ++ w).length ∧
        Captures blanks u w row ∧
        span = ⟨u.length + ((w ++ v).takeWhile Text.isBlank).length, (u ++ w).length⟩ := by
  have hleft (u w : Text) : (u ++ w).length - w.length = u.length := by
    rw [List.length_append, Nat.add_sub_cancel]
  constructor
  · intro h
    rw [find?, ← edge] at h
    generalize hedge : edge t pos ahead blanks = stop at h
    simp only at h
    split at h
    · cases h
    rename_i hinside
    obtain ⟨q, rfl⟩ : ∃ q : Nat, stop = q := ⟨stop.toNat, by omega⟩
    rw [Text.behind, Int.toNat_natCast] at h
    generalize hreach : reachLeft blanks 0 (split .backward (t.take q).reverse) = reached at h
    obtain ⟨n, waiting⟩ := reached
    simp only at h
    split at h
    · cases h
    rename_i hbalanced
    obtain ⟨hn, hwaiting⟩ := not_or.mp hbalanced
    obtain rfl := not_not.mp hwaiting
    obtain rfl := Option.some.inj h
    obtain ⟨u, w, row, htake, rfl, hrow⟩ := exists_captures_of_reachLeft hn hreach
    have ht : t = u ++ w ++ t.drop q := by rw [← htake, List.take_append_drop]
    have hlength : (u ++ w).length = q := by
      rw [← htake, List.length_take_of_le (by omega)]
    have hdrop : t.drop u.length = w ++ t.drop q := by
      conv_lhs => rw [ht, List.append_assoc, List.drop_left]
    exact ⟨u, w, t.drop q, row, ht, by rw [hlength], hrow, by
      rw [← hlength, hleft, hlength, hdrop]⟩
  · rintro ⟨u, w, v, row, rfl, hedge, hrow, rfl⟩
    rw [find?_of_reachLeft hedge hrow.reachLeft_eq (List.length_pos_iff.mpr hrow.ne_nil), hleft,
      List.append_assoc, List.drop_left]

/-- The text of what is found is what has been taken in, without the blanks at its beginning. -/
lemma textOf_captured (u w v : Text) :
    textOf ⟨u.length + ((w ++ v).takeWhile Text.isBlank).length, (u ++ w).length⟩ (u ++ w ++ v) =
      w.dropWhile Text.isBlank := by
  rw [textOf, Text.slice_natCast, List.take_left, ← List.drop_drop, List.drop_left,
    Numeral.drop_length_takeWhile_append]

/-- What is found at a position with no closing parenthesis behind it is the text of the lexemes that
have been taken in, without the blanks at its beginning. -/
lemma exists_taken_of_find? {t : Text} {q : Nat} (hclosing : t[q]? ≠ some ')') {span : Span}
    (h : find? t q true blanks = some span) :
    ∃ taken more, split .backward (t.take q).reverse = taken ++ more ∧
      taken.foldlM (takeIn blanks) 0 = some 0 ∧ (∀ l ∈ more.head?, takeIn blanks 0 l = none) ∧
      span.textOf t = (joined .forward taken.reverse).dropWhile Text.isBlank := by
  obtain ⟨u, w, v, row, rfl, hedge, hrow, rfl⟩ := find?_eq_some_iff.mp h
  have hat : (u ++ w ++ v).at? q ≠ some ')' := by
    rwa [Text.at?, if_neg (by omega), Int.toNat_natCast]
  rw [edge_eq_self fun _ => hat] at hedge
  obtain rfl := Int.ofNat_inj.mp hedge
  refine ⟨row, split .backward u.reverse, ?_, hrow.foldlM_eq,
    takeIn_head_eq_none_iff.mpr hrow.outside, ?_⟩
  · rw [List.take_left]
    exact hrow.split_eq
  · rw [textOf_captured, hrow.joined_eq]

end Span

namespace Grammar

variable {ls : List Lexeme} {t u v : Text}

/-- From the right, a derivable row is taken in as a whole, and every closing parenthesis of it
finds its partner in it. -/
lemma Derives.foldlM_takeIn {l : Level} {e : Tree} (h : Derives l ls e) (waiting : Nat) :
    ls.reverse.foldlM (Span.takeIn true) waiting = some waiting := by
  induction h generalizing waiting with
  | numeral => rfl
  | empty => rfl
  | group _ ih =>
    -- The closing parenthesis waits while the inner row is taken in, and the opening one is its
    -- partner.
    simp [List.foldlM_append, Span.takeIn, ih]
  | signed hop _ ih =>
    have hsign := Operator.isArithmetic_of_isSign hop
    simp [List.foldlM_append, Span.takeIn_operator hsign, ih]
  | binary hop _ _ _ ihl ihr => simp [List.foldlM_append, Span.takeIn_operator hop, ihl, ihr]
  | promote _ ih => exact ih waiting

/-- Behind a barrier, a sentence without line characters is taken in, and nothing else. -/
lemma IsSentence.reachLeft (ht : IsSentence t) (hblank : ∀ c ∈ t, Text.isWhite c → Text.isBlank c)
    (hu : ∀ c ∈ u.getLast?, Text.isBarrier c) :
    Span.reachLeft true 0 (split .backward (u ++ t).reverse) = (t.length, 0) := by
  obtain ⟨ls, ⟨e, he⟩, hspells⟩ := ht
  obtain ⟨row, rfl, rfl, hknown, hapart⟩ := hspells.exists_row he.isTerminal he.isChain
  have hend : ∀ c ∈ u.reverse.head?, Numeral.isPart c = false := by
    intro c hc
    rw [List.head?_reverse] at hc
    exact Text.isPart_of_isBarrier (hu c hc)
  have hsplit : split .backward (u ++ joined .forward row).reverse =
      row.reverse ++ split .backward u.reverse := by
    rw [List.reverse_append, ← joined_backward_reverse]
    exact split_joined_append .backward (by simpa using hknown) (isChain_apart_reverse hapart) hend
  have hwhite : ∀ c, .white c ∈ row.reverse → Text.isBlank c := by
    intro c hc
    have hmem : Lexeme.white c ∈ row := List.mem_reverse.mp hc
    have hmem' : c ∈ joined .forward row :=
      List.mem_flatMap.mpr ⟨.white c, hmem, List.mem_singleton_self c⟩
    exact hblank c hmem' (hknown _ hmem)
  have htaken : row.reverse.foldlM (Span.takeIn true) 0 = some 0 := by
    rw [Span.foldlM_takeIn_visible hwhite, visible_reverse]
    exact he.foldlM_takeIn 0
  have houtside : ∀ c ∈ u.getLast?, Text.isOutside true c :=
    fun c hc => Text.isOutside_of_isBarrier (hu c hc)
  rw [hsplit, Span.reachLeft_append htaken, Span.reachLeft_outside houtside, Nat.add_zero,
    ← length_joined .backward, joined_backward_reverse, List.length_reverse]

/-- A sentence is not empty. -/
lemma IsSentence.ne_nil (ht : IsSentence t) : t ≠ [] := by
  obtain ⟨ls, ⟨e, he⟩, hspells⟩ := ht
  obtain ⟨w, a, x, rfl, -⟩ := hspells.exists_white he.isTerminal he.ne_nil
  simp

/-- In front of a position at which a sentence ends, the sentence is found, behind any text that
ends with a barrier and before any text that does not begin with a closing parenthesis.  Hence a
session evaluates at this position as it evaluates the sentence. -/
theorem extract_sentence (ht : IsSentence t)
    (hblank : ∀ c ∈ t, Text.isWhite c → Text.isBlank c)
    (hfirst : ∀ c ∈ t.head?, Text.isBlank c = false) (hu : ∀ c ∈ u.getLast?, Text.isBarrier c)
    (hv : v.head? ≠ some ')') :
    extract (u ++ t ++ v) (some (u ++ t).length) none none =
        some ⟨u.length, u.length + t.length⟩ ∧
      ∀ s : Session,
        (s.evaluateAt (u ++ t ++ v) (some (u ++ t).length)).result =
          (s.evaluate .forward t).result ∧
        (s.evaluateAt (u ++ t ++ v) (some (u ++ t).length)).session =
          (s.evaluate .forward t).session := by
  have hextract : extract (u ++ t ++ v) (some (u ++ t).length) none none =
      some ⟨u.length, u.length + t.length⟩ := by
    have hpositive : 0 < t.length := List.length_pos_iff.mpr ht.ne_nil
    have hstart : (u ++ t).length - t.length = u.length := by
      rw [List.length_append, Nat.add_sub_cancel]
    have htrimmed : ((u ++ t ++ v).drop u.length).takeWhile Text.isBlank = [] := by
      obtain ⟨c, cs, rfl⟩ := List.exists_cons_of_ne_nil ht.ne_nil
      rw [List.append_assoc, List.drop_left, List.cons_append, List.takeWhile_cons_of_neg]
      simpa using hfirst c rfl
    have hedge : Span.edge (u ++ t ++ v) (u ++ t).length true true = (u ++ t).length :=
      Span.edge_append hv
    have hfind := Span.find?_of_reachLeft hedge (ht.reachLeft hblank hu) hpositive
    rw [hstart, htrimmed, List.length_nil, Nat.add_zero] at hfind
    rw [← List.length_append]
    exact hfind
  refine ⟨hextract, fun s => ?_⟩
  have htext : Span.textOf ⟨u.length, u.length + t.length⟩ (u ++ t ++ v) = t := by
    rw [Span.textOf, Text.slice_natCast, ← List.length_append, List.take_left, List.drop_left]
  simp only [Session.evaluateAt, hextract, htext, and_self]

/-- Behind an opening parenthesis that is not closed, and before a letter, the sentence `-(1 + 2)`
is found. -/
theorem extract_sentence_in_parenthesis :
    extract ['x', '(', '-', '(', '1', ' ', '+', ' ', '2', ')', ' ', 'y'] (some 10) none none =
        some ⟨2, 10⟩ ∧
      ∀ s : Session,
        (s.evaluateAt ['x', '(', '-', '(', '1', ' ', '+', ' ', '2', ')', ' ', 'y']
          (some 10)).result =
          (s.evaluate .forward ['-', '(', '1', ' ', '+', ' ', '2', ')']).result ∧
        (s.evaluateAt ['x', '(', '-', '(', '1', ' ', '+', ' ', '2', ')', ' ', 'y']
          (some 10)).session =
          (s.evaluate .forward ['-', '(', '1', ' ', '+', ' ', '2', ')']).session := by
  have hsum : Derives .sum ([.numeral ['1']] ++ .symbol .plus :: [.numeral ['2']]) _ :=
    .binary rfl rfl (.promote (.promote (.promote (.promote (derives_digit rfl)))))
      (.promote (.promote (.promote (derives_digit rfl))))
  have hsigned : Derives .unary (.symbol .minus :: _) _ := .signed rfl (.promote (.group hsum))
  have hspells : Spells _ ['-', '(', '1', ' ', '+', ' ', '2', ')'] :=
    .lexeme (.symbol .minus) (.lexeme (.symbol .leftParenthesis) (.lexeme (.numeral ['1'])
      (.white rfl (.lexeme (.symbol .plus) (.white rfl (.lexeme (.numeral ['2'])
        (.lexeme (.symbol .rightParenthesis) .nil)))))))
  have hsentence : IsSentence ['-', '(', '1', ' ', '+', ' ', '2', ')'] :=
    ⟨_, ⟨_, hsigned.sum_of_unary⟩, hspells⟩
  have hblank : ∀ c ∈ ['-', '(', '1', ' ', '+', ' ', '2', ')'], Text.isWhite c →
      Text.isBlank c := by
    simp [Text.isWhite, Text.isBlank]
  have hfirst : ∀ c ∈ List.head? ['-', '(', '1', ' ', '+', ' ', '2', ')'],
      Text.isBlank c = false := by
    intro c hc
    obtain rfl := Option.some.inj hc
    rfl
  have hbarrier : ∀ c ∈ List.getLast? ['x', '('], Text.isBarrier c := by
    intro c hc
    obtain rfl := Option.some.inj hc
    rfl
  have hbehind : List.head? [' ', 'y'] ≠ some ')' := by
    intro hclosing
    exact absurd (Option.some.inj hclosing) (by decide)
  exact extract_sentence hsentence hblank hfirst hbarrier hbehind

end Grammar

end Reckoner
