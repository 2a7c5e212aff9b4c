import Reckoner.Cursor.Parse
import Reckoner.Proofs.Lexing
import Reckoner.Proofs.Reading.Step

/-!
# Runs of a reader

`Progress.Reads` is the run of a reader over a row of visible lexemes.  A forward parse succeeds
exactly when the run over all visible lexemes of the text closes every parenthesis and leaves tokens
that can be ordered (`parse_forward_eq_ok_iff`).  A backward parse may stop before the beginning of
the text (`Cursor.parse_backward_append`); where the run takes all lexemes, the cursor is left in
front of the first visible one (`parse_backward_of_reads`).  Any parse, wherever its cursor stands,
comes from a run over some of the lexemes (`Cursor.exists_reads_of_parse`).
-/

namespace Reckoner

open Lexeme

namespace Lexeme

/-- White characters have no say in whether a sign may stand. -/
lemma admitSign_visible (row : List Lexeme) : admitSign (visible row) = admitSign row := by
  induction row with
  | nil => rfl
  | cons l row ih => cases l <;> first | exact ih | rfl

/-- At the edge of what is seen, numerals are left as they are. -/
lemma HasNumerals.hideFrom {row : List Lexeme} (h : HasNumerals row) (stop pos : Int) :
    HasNumerals (hideFrom stop pos row) := by
  induction row generalizing pos with
  | nil => exact h
  | cons l row ih =>
    rw [Lexeme.hideFrom]
    split
    · exact h
    · have hrest := ih (h.mono (List.subset_cons_self l row)) (pos - l.length)
      intro t ht
      rcases List.mem_cons.mp ht with hveil | hlater
      · cases l with
        | numeral w =>
          obtain rfl := Lexeme.numeral.inj hveil
          exact h t List.mem_cons_self
        | symbol | white | foreign => cases hveil
      · exact hrest t hlater

end Lexeme

namespace Direction

/-- The tokens of a reader, the latest first, in the order of writing. -/
def infixOrder : Direction → List Token → List Token
  | forward, ts => ts.reverse
  | backward, ts => ts

end Direction

namespace Progress

/-- A run over a row of visible lexemes, in front of further ones; both rows are in reading
order. -/
inductive Reads (step : Int) (dir : Direction) :
    Progress → List Lexeme → List Lexeme → Progress → Prop
  | nil {p : Progress} {rest : List Lexeme} : Reads step dir p [] rest p
  | cons {p q r : Progress} {l : Lexeme} {ls rest : List Lexeme} {cat : Category}
      (head : Takes step dir (dir.admitSign (ls ++ rest)) p l cat q)
      (tail : Reads step dir q ls rest r) : Reads step dir p (l :: ls) rest r

variable {step : Int} {dir : Direction} {p q r : Progress} {ls ms rest : List Lexeme}

namespace Reads

/-- A run over nothing changes nothing. -/
lemma nil_iff : Reads step dir p [] rest q ↔ q = p := by
  constructor
  · rintro ⟨⟩
    rfl
  · rintro rfl
    exact .nil

/-- A run over a lexeme and further ones takes the lexeme first. -/
lemma cons_iff {l : Lexeme} : Reads step dir p (l :: ls) rest r ↔
    ∃ cat q, Takes step dir (dir.admitSign (ls ++ rest)) p l cat q ∧
      Reads step dir q ls rest r := by
  constructor
  · rintro (_ | ⟨head, tail⟩)
    exact ⟨_, _, head, tail⟩
  · rintro ⟨cat, q, head, tail⟩
    exact .cons head tail

/-- A run over two rows is one over the first, in front of the second, and then one over the
second. -/
lemma append_iff : Reads step dir p (ls ++ ms) rest r ↔
    ∃ q, Reads step dir p ls (ms ++ rest) q ∧ Reads step dir q ms rest r := by
  induction ls generalizing p with
  | nil =>
    refine ⟨fun h => ⟨p, .nil, h⟩, ?_⟩
    rintro ⟨_, h, h'⟩
    obtain rfl := nil_iff.mp h
    exact h'
  | cons l ls ih =>
    constructor
    · intro h
      cases h with
      | cons head tail =>
        obtain ⟨q, hls, hms⟩ := ih.mp tail
        exact ⟨q, .cons (by rwa [← List.append_assoc]) hls, hms⟩
    · rintro ⟨q, hls, hms⟩
      cases hls with
      | cons head tail =>
        rw [← List.append_assoc] at head
        exact .cons head (ih.mpr ⟨q, tail, hms⟩)

/-- What every lexeme that is taken preserves, a run preserves; what is preserved may speak of the
row that has been read. -/
lemma invariant {I : List Lexeme → Progress → Prop}
    (hI : ∀ {row p signed l cat q}, I row p → Takes step dir signed p l cat q → I (row ++ [l]) q)
    (h : Reads step dir p ls rest q) (row : List Lexeme) (hp : I row p) : I (row ++ ls) q := by
  induction h generalizing row with
  | nil => simpa using hp
  | cons head _ ih => simpa using ih _ (hI hp head)

/-- No foreign characters are among the lexemes of a run. -/
lemma ne_foreign (h : Reads step dir p ls rest q) : ∀ l ∈ ls, ∀ c, l ≠ .foreign c := by
  induction h with
  | nil => simp
  | cons head _ ih => exact List.forall_mem_cons.mpr ⟨head.ne_foreign, ih⟩

/-- What is read of a text is known. -/
lemma isKnown {row : List Lexeme} {t : Text} (h : Reads step dir p (visible row) rest q)
    (hrow : ∀ l ∈ row, l ∈ split dir t) : ∀ l ∈ row, l.IsKnown := by
  intro l hl
  rcases isKnown_or_foreign_of_mem_splitFrom dir (hrow l hl) with hknown | ⟨c, rfl⟩
  · exact hknown
  · have hvisible : foreign c ∈ visible row := by simp [visible, hl, isWhite]
    exact absurd rfl (h.ne_foreign _ hvisible c)

/-- From the left, a run does not depend on the lexemes that come after it. -/
lemma forward_rest (h : Reads step .forward p ls rest q) (rest' : List Lexeme) :
    Reads step .forward p ls rest' q := by
  induction h with
  | nil => exact .nil
  | cons head _ ih => exact .cons head ih

/-- A run does not depend on the tokens so far, and adds to them. -/
lemma frame (h : Reads step dir p ls rest q) : ∃ new, q.tokens = new ++ p.tokens ∧
    ∀ ts, Reads step dir { p with tokens := ts } ls rest { q with tokens := new ++ ts } := by
  induction h with
  | nil => exact ⟨[], rfl, fun _ => .nil⟩
  | cons head _ ih =>
    obtain ⟨new, hnew, hhead⟩ := head.frame
    obtain ⟨more, hmore, htail⟩ := ih
    refine ⟨more ++ new, by rw [hmore, hnew, List.append_assoc], fun ts => ?_⟩
    rw [List.append_assoc]
    exact .cons (hhead ts) (htail (new ++ ts))

end Reads

/-! ## Passes -/

/-- From the left, a pass succeeds if there is a run over all visible lexemes. -/
lemma pass_forward_eq_ok_iff {start pos : Int} {row : List Lexeme} :
    (Pass.forward step p start pos row).progress = .ok q ↔
      Reads step .forward p (visible row) [] q := by
  induction row generalizing p start pos with
  | nil =>
    constructor
    · intro h
      obtain rfl := Except.ok.inj h
      exact .nil
    · rintro ⟨⟩
      rfl
  | cons l row ih =>
    cases hl : l.isWhite with
    | true =>
      obtain ⟨c, rfl⟩ := exists_eq_white hl
      exact ih
    | false =>
      rw [visible_cons hl]
      unfold Pass.forward
      constructor
      · intro h
        split at h
        · simp at h
        · rename_i hread
          obtain ⟨cat, htakes⟩ := (readForward_eq_ok_iff hl pos).mp hread
          exact .cons htakes (ih.mp h)
      · rintro (_ | ⟨head, tail⟩)
        have hread := (readForward_eq_ok_iff hl pos).mpr ⟨_, head⟩
        simp only [hread]
        exact ih.mpr tail

/-- From the right, a pass that succeeds has gone over the lexemes up to its place, and comes from a
run over the visible ones among them. -/
lemma exists_reads_of_pass_backward {start pos : Int} {row : List Lexeme}
    (h : (Pass.backward step p start pos row).progress = .ok q) :
    ∃ passed left, row = passed ++ left ∧
      (Pass.backward step p start pos row).pos = pos - width passed ∧
      Reads step .backward p (visible passed) (visible left) q := by
  induction row generalizing p start pos with
  | nil =>
    obtain rfl := Except.ok.inj h
    exact ⟨[], [], rfl, by simp [Pass.backward, width], .nil⟩
  | cons l row ih =>
    cases hl : l.isWhite with
    | true =>
      obtain ⟨c, rfl⟩ := exists_eq_white hl
      obtain ⟨passed, left, hrow, hpos, hreads⟩ := ih h
      refine ⟨.white c :: passed, left, congrArg _ hrow, hpos.trans ?_, hreads⟩
      simp only [width]
      omega
    | false =>
      rw [Pass.backward] at h ⊢
      split at h
      · simp at h
      · rename_i hread
        obtain rfl := Except.ok.inj h
        exact ⟨[], l :: row, rfl, by simp [width], .nil⟩
      · rename_i hread
        obtain ⟨cat, htakes⟩ := (readBackward_eq_ok_some_iff hl _ row).mp hread
        obtain ⟨passed, left, rfl, hpos, hreads⟩ := ih h
        rw [← admitSign_visible, visible, List.filter_append] at htakes
        refine ⟨l :: passed, left, rfl, ?_, ?_⟩
        · simp only [hpos, width]
          omega
        · rw [visible_cons hl]
          exact .cons htakes hreads

/-- However a pass from the right ends, its place is within the row. -/
lemma exists_pos_of_pass_backward (p : Progress) (start pos : Int) (row : List Lexeme) :
    ∃ n ≤ width row, (Pass.backward step p start pos row).pos = pos - (n : Nat) := by
  induction row generalizing p start pos with
  | nil => exact ⟨0, Nat.le_refl _, by simp [Pass.backward]⟩
  | cons l row ih =>
    simp only [Pass.backward, width]
    split
    · split
      · exact ⟨0, Nat.zero_le _, by simp⟩
      · exact ⟨l.length, Nat.le_add_right _ _, rfl⟩
    · exact ⟨0, Nat.zero_le _, by simp⟩
    · rename_i q _
      obtain ⟨n, hn, hpos⟩ := ih q (if l.isNumeral then pos - l.length else start) (pos - l.length)
      refine ⟨l.length + n, Nat.add_le_add_left hn _, hpos.trans ?_⟩
      omega

/-- From the right, a pass goes past the lexemes of a row if there is a run over all visible ones,
and goes on with the lexemes further left. -/
lemma pass_backward_append (start pos : Int) {row left : List Lexeme}
    (h : Reads step .backward p (visible row) (visible left) q) :
    ∃ start', Pass.backward step p start pos (row ++ left) =
      Pass.backward step q start' (pos - width row) left := by
  induction row generalizing p start pos with
  | nil =>
    obtain rfl := Reads.nil_iff.mp h
    exact ⟨start, by simp [width]⟩
  | cons l row ih =>
    have hpos : pos - width (l :: row) = pos - l.length - width row := by
      simp only [width]
      omega
    rw [hpos]
    cases hl : l.isWhite with
    | true =>
      obtain ⟨c, rfl⟩ := exists_eq_white hl
      exact ih _ _ h
    | false =>
      rw [visible_cons hl] at h
      obtain _ | ⟨head, tail⟩ := h
      rw [Direction.admitSign, visible, visible, ← List.filter_append, ← visible,
        admitSign_visible] at head
      have hread := (readBackward_eq_ok_some_iff hl (pos - l.length) (row ++ left)).mpr ⟨_, head⟩
      simp only [List.cons_append, Pass.backward, hread]
      exact ih _ _ tail

/-- A reader has finished if all parentheses are closed and the tokens can be ordered. -/
lemma finish_eq_ok_iff {infixOrder ts : List Token} {column : Int} :
    p.finish infixOrder column = .ok ts ↔ p.depth = 0 ∧ order infixOrder = some ts := by
  unfold finish
  split
  · simp_all
  · split <;> simp_all

/-- Where all parentheses are closed and the tokens cannot be ordered, operands are missing. -/
lemma finish_eq_error {infixOrder : List Token} (hdepth : p.depth = 0) (h : order infixOrder = none)
    (column : Int) :
    p.finish infixOrder column = .error (.malformed .parityMismatch column) := by
  simp [finish, hdepth, h]

end Progress

open Progress

/-! ## Parsing -/

namespace Cursor

/-- What a cursor parses comes from a run over some of the lexemes at its place, of which the
numerals are numerals. -/
lemma exists_hasNumerals_of_parse {step : Int} {dir : Direction} {c : Cursor} {ts : List Token}
    (h : (c.parseWith step dir).1 = .ok ts) :
    ∃ ls rest q, HasNumerals ls ∧ Reads step dir (.start dir) ls rest q ∧
      (q.depth = 0 ∧ order (dir.infixOrder q.tokens) = some ts) := by
  cases dir with
  | forward =>
    simp only [parseWith, parseForward] at h
    by_cases hend : c.atEnd
    · rw [if_pos hend] at h
      obtain rfl := Except.ok.inj h
      exact ⟨[], [], .start .forward, by simp [HasNumerals], .nil, rfl, rfl⟩
    rw [if_neg hend] at h
    by_cases hneg : c.pos < 0
    · simp [hneg] at h
    rw [if_neg hneg] at h
    by_cases hpast : c.runsPast
    · rw [if_pos hpast] at h
      split at h <;> simp at h
    rw [if_neg hpast] at h
    obtain ⟨q, hpass, hfinish⟩ := bind_eq_ok_iff.mp h
    have hnumerals := (hasNumerals_split .forward c.ahead).visible
    exact ⟨_, [], q, hnumerals, pass_forward_eq_ok_iff.mp hpass, finish_eq_ok_iff.mp hfinish⟩
  | backward =>
    simp only [parseWith, parseBackward] at h
    split_ifs at h
    split at h
    · simp at h
    · rename_i hsettle
      split at h
      · simp at h
      · obtain rfl := Except.ok.inj h
        obtain ⟨q, hpass, hfinish⟩ := bind_eq_ok_iff.mp (congrArg Prod.fst hsettle)
        obtain ⟨passed, left, hrow, -, hreads⟩ := exists_reads_of_pass_backward hpass
        have hnumerals := (hasNumerals_split .backward (c.text.behind c.pos)).hideFrom c.stop c.pos
        rw [hrow] at hnumerals
        have hpassed := (hnumerals.mono (List.subset_append_left passed left)).visible
        exact ⟨_, _, q, hpassed, hreads, finish_eq_ok_iff.mp hfinish⟩

/-- What a cursor parses comes from a run over some of the lexemes at its place. -/
theorem exists_reads_of_parse {step : Int} {dir : Direction} {c : Cursor} {ts : List Token}
    (h : (c.parseWith step dir).1 = .ok ts) :
    ∃ ls rest q, Reads step dir (.start dir) ls rest q ∧
      (q.depth = 0 ∧ order (dir.infixOrder q.tokens) = some ts) := by
  obtain ⟨ls, rest, q, -, hparsed⟩ := exists_hasNumerals_of_parse h
  exact ⟨ls, rest, q, hparsed⟩

end Cursor

/-- From the left, all lexemes of a text are read, and what is missing at its end shows at the
latest visible one. -/
lemma parse_forward_eq {t : Text} (ht : t ≠ []) {pass : Pass}
    (hpass : Pass.forward Settings.standard.nestingStep (.start .forward) 0 0
      (split .forward t) = pass) :
    parse .forward t = pass.progress >>= fun p => p.finish p.tokens.reverse pass.start := by
  subst hpass
  simp [parse, Cursor.parse, Cursor.parseWith, Cursor.whole, Cursor.ofText,
    Cursor.parseForward, Cursor.atEnd, Cursor.runsPast, Cursor.ahead, Cursor.settle, ht]

/-- From the left, a text is an expression if a run takes all its visible lexemes, closes all
parentheses and leaves tokens that can be ordered. -/
theorem parse_forward_eq_ok_iff {t : Text} {ts : List Token} :
    parse .forward t = .ok ts ↔
      ∃ q, Reads Settings.standard.nestingStep .forward (.start .forward)
        (visible (split .forward t)) [] q ∧ q.depth = 0 ∧ order q.tokens.reverse = some ts := by
  cases t with
  | nil =>
    constructor
    · intro h
      obtain rfl := Except.ok.inj h
      exact ⟨.start .forward, .nil, rfl, rfl⟩
    · rintro ⟨q, ⟨⟩, -, horder⟩
      obtain rfl := Option.some.inj horder
      rfl
  | cons c t =>
    rw [parse_forward_eq (List.cons_ne_nil c t) rfl]
    simp only [bind_eq_ok_iff, pass_forward_eq_ok_iff, finish_eq_ok_iff]

namespace Cursor

/-- From the right, a cursor gives the tokens of the pass over what is in front of it, and is left
behind the white characters at the place where the pass has stopped. -/
lemma parse_backward_eq {t : Text} {q p : Nat} (hq : q ≤ t.length) {pass : Pass}
    (hpass : Pass.backward Settings.standard.nestingStep (.start .backward) q q
      (split .backward (t.take q).reverse) = pass) (hpos : pass.pos = p) :
    (place t q none none).parse .backward =
      match pass.progress >>= fun r => r.finish r.tokens p with
      | .error f => (.error f, ⟨t, p, pass.start, t.length⟩)
      | .ok ts =>
        (.ok ts, ⟨t, (p + ((t.drop p).takeWhile Text.isWhite).length : Nat), pass.start,
          t.length⟩) := by
  have hinside : ¬ ((t.length : Int) < q) := by omega
  have hseen : (q : Int) ≤ t.length := by omega
  have hnonneg : ¬ ((p : Int) < 0) := by omega
  have hlength : ((t.length : Int) - p).toNat = (t.drop p).length := by
    rw [List.length_drop]
    omega
  have hahead : ∀ start, ahead ⟨t, p, start, t.length⟩ = t.drop p := by
    intro start
    rw [ahead, if_neg hnonneg, hlength, Int.toNat_natCast, List.take_length]
  have hskip : ∀ start, eatWhile Text.isWhite ⟨t, p, start, t.length⟩ =
      (.ok !((t.drop p).takeWhile Text.isWhite).isEmpty,
        ⟨t, (p + ((t.drop p).takeWhile Text.isWhite).length : Nat), start, t.length⟩) := by
    intro start
    simp [eatWhile, hahead, runsPast]
  simp only [parse, parseWith, place, parseBackward, Text.behind, Int.toNat_natCast,
    Option.getD_none, hideFrom_of_le hseen, hpass, hinside, if_false, settle, hpos]
  cases pass.progress >>= fun r => r.finish r.tokens p with
  | error f => rfl
  | ok ts => simp [hskip]

/-- Over what is in front of a place of a text, a pass from the right ends at a place of the text. -/
lemma exists_place_of_pass {t : Text} {q : Nat} (hq : q ≤ t.length) {pass : Pass}
    (hpass : Pass.backward Settings.standard.nestingStep (.start .backward) q q
      (split .backward (t.take q).reverse) = pass) : ∃ p : Nat, pass.pos = p := by
  obtain ⟨n, hn, hpos⟩ : ∃ n ≤ width (split .backward (t.take q).reverse),
      pass.pos = q - (n : Nat) := hpass ▸ exists_pos_of_pass_backward _ _ _ _
  rw [width_split, List.length_reverse, List.length_take_of_le hq] at hn
  exact ⟨q - n, by omega⟩

/-- From the right, a cursor has the tokens that the reader has finished with where the pass over
what is in front of the cursor has stopped. -/
lemma parse_backward_fst {t : Text} {q : Nat} (hq : q ≤ t.length) {pass : Pass}
    (hpass : Pass.backward Settings.standard.nestingStep (.start .backward) q q
      (split .backward (t.take q).reverse) = pass) :
    ((place t q none none).parse .backward).1 =
      pass.progress >>= fun r => r.finish r.tokens pass.pos := by
  obtain ⟨p, hpos⟩ := exists_place_of_pass hq hpass
  rw [parse_backward_eq hq hpass hpos, hpos]
  cases pass.progress >>= fun r => r.finish r.tokens p <;> rfl

/-- From the right, a parse gives tokens if the pass leaves a reader that has closed all parentheses
and tokens that can be ordered; and then the cursor is left behind the white characters at the place
where the pass has stopped. -/
lemma parse_backward_eq_ok_iff {t : Text} {q : Nat} (hq : q ≤ t.length) {pass : Pass}
    (hpass : Pass.backward Settings.standard.nestingStep (.start .backward) q q
      (split .backward (t.take q).reverse) = pass) {ts : List Token} {c : Cursor} :
    (place t q none none).parse .backward = (.ok ts, c) ↔
      ∃ (p : Nat) (r : Progress), pass.pos = p ∧ pass.progress = .ok r ∧
        (r.depth = 0 ∧ order r.tokens = some ts) ∧
        c = ⟨t, (p + ((t.drop p).takeWhile Text.isWhite).length : Nat), pass.start, t.length⟩ := by
  obtain ⟨p, hpos⟩ := exists_place_of_pass hq hpass
  rw [parse_backward_eq hq hpass hpos]
  constructor
  · intro h
    split at h
    · cases h
    · rename_i hfinish
      obtain ⟨hts, rfl⟩ := Prod.mk.inj h
      obtain rfl := Except.ok.inj hts
      obtain ⟨r, hr, hfinish⟩ := bind_eq_ok_iff.mp hfinish
      exact ⟨p, r, hpos, hr, finish_eq_ok_iff.mp hfinish, rfl⟩
  · rintro ⟨p', r, hpos', hr, hfinished, rfl⟩
    obtain rfl : p = p' := Int.ofNat_inj.mp (hpos.symm.trans hpos')
    have hfinish : (pass.progress >>= fun r => r.finish r.tokens p) = .ok ts :=
      bind_eq_ok_iff.mpr ⟨r, hr, finish_eq_ok_iff.mpr hfinished⟩
    rw [hfinish]

/-- A parse from the right that takes the lexemes of `s` and stops behind `u` gives what the reader
has finished with.  The cursor is left behind `u`, and behind the white characters of `s` too if it
is an expression. -/
theorem parse_backward_append {u s : Text} {row : List Lexeme} {q : Progress}
    (hrow : split .backward (u ++ s).reverse = row ++ split .backward u.reverse)
    (hreads : Reads Settings.standard.nestingStep .backward (.start .backward) (visible row)
      (visible (split .backward u.reverse)) q)
    (hstop : ∀ start pos, Pass.backward Settings.standard.nestingStep q start pos
      (split .backward u.reverse) = ⟨.ok q, start, pos⟩) :
    ((whole (u ++ s) .backward).parse .backward).1 = q.finish q.tokens u.length ∧
      ((whole (u ++ s) .backward).parse .backward).2.pos = (u.length : Nat) +
        if (q.finish q.tokens u.length).isOk then (s.takeWhile Text.isWhite).length else 0 := by
  have hwidth : ((u ++ s).length : Int) - width row = u.length := by
    have hall := congrArg width hrow
    rw [width_split, width_append, width_split, List.length_reverse, List.length_reverse] at hall
    omega
  obtain ⟨start, hpass⟩ := pass_backward_append (u ++ s).length (u ++ s).length hreads
  have htake : ((u ++ s).take (u ++ s).length).reverse = (u ++ s).reverse := by
    rw [List.take_length]
  rw [hwidth, hstop, ← hrow, ← htake] at hpass
  have hparse := parse_backward_eq (p := u.length) (Nat.le_refl _) hpass rfl
  have hplace : whole (u ++ s) .backward = .place (u ++ s) (u ++ s).length none none := rfl
  rw [hplace, hparse, List.drop_left]
  cases hfinish : q.finish q.tokens u.length with
  | ok ts => simp [bind, Except.bind, hfinish, Except.isOk, Except.toBool]
  | error f => simp [bind, Except.bind, hfinish, Except.isOk, Except.toBool]

end Cursor

/-- A run from the right over all visible lexemes of a text, which closes all parentheses and leaves
tokens that can be ordered, leaves the cursor at the first character that is not white. -/
theorem parse_backward_of_reads {t : Text} {ts : List Token} {q : Progress}
    (h : Reads Settings.standard.nestingStep .backward (.start .backward)
      (visible (split .backward t.reverse)) [] q)
    (hdepth : q.depth = 0) (horder : order q.tokens = some ts) :
    ((Cursor.whole t .backward).parse .backward).1 = .ok ts ∧
      ((Cursor.whole t .backward).parse .backward).2.pos =
        (t.takeWhile Text.isWhite).length := by
  have hrow : split .backward ([] ++ t).reverse =
      split .backward t.reverse ++ split .backward ([] : Text).reverse :=
    (List.append_nil _).symm
  have hfinish : q.finish q.tokens 0 = .ok ts := finish_eq_ok_iff.mpr ⟨hdepth, horder⟩
  obtain ⟨hparse, hpos⟩ := Cursor.parse_backward_append hrow h fun _ _ => rfl
  refine ⟨hparse.trans hfinish, hpos.trans ?_⟩
  simp [hfinish, Except.isOk, Except.toBool]

end Reckoner
