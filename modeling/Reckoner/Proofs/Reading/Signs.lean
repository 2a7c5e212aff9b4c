import Reckoner.Proofs.Seams
import Reckoner.Proofs.Sentences

/-!
# The two ways to tell a sign

From the left, the lexemes before a plus or minus decide what may come next, and so whether it is
the sign of an operand or a binary operator.  A cursor tells this from the nearest lexeme to its
left that is not white, read from the right.  The two agree (`takes_sign_iff_admitsSign`).

What may come next depends on the latest lexeme alone, and one look at each lexeme that can be taken
shows that the cursor makes the same of it (`LooksBack.takes`).  The cursor reads from the right,
though, where digits and points may fall into other numerals.  They do not behind a reader that has
come so far, since it takes no numeral directly behind another one.
-/

namespace Reckoner

open Lexeme Grammar

namespace Progress

variable {step : Int} {signed : Bool} {p q : Progress} {l : Lexeme} {cat : Category}
  {row ls rest : List Lexeme}

/-! ## Readers from the left -/

/-- A reader from the left has taken no two numerals side by side, and it expects a sign exactly
where the latest lexeme lets one stand. -/
structure LooksBack (row : List Lexeme) (p : Progress) : Prop where
  isChain : row.IsChain Apart
  number : ∀ l ∈ row.getLast?, l.isNumeral → p.expected.number = false
  sign_eq : p.expected.sign = admitSign row.reverse

/-- Before anything has been read, this is so. -/
lemma looksBack_start : LooksBack [] (.start .forward) where
  isChain := .nil
  number := nofun
  sign_eq := rfl

/-- A symbol behind which a sign is expected exactly if it does not close a group. -/
lemma LooksBack.symbol (hp : LooksBack row p) {op : Operator}
    (h : q.expected.sign = (op != .rightParenthesis)) : LooksBack (row ++ [.symbol op]) q where
  isChain := (isChain_symbol_append op).mpr ⟨hp.isChain, .nil⟩
  number := by simp [isNumeral]
  sign_eq := by
    rw [h, List.reverse_append]
    rfl

/-- What is taken from the left changes nothing about this. -/
theorem LooksBack.takes (hp : LooksBack row p) (h : Takes step .forward signed p l cat q) :
    LooksBack (row ++ [l]) q := by
  have hexpected := h.expected_eq
  cases h with
  | number h hk =>
    refine ⟨?_, fun _ _ _ => rfl, ?_⟩
    · refine List.isChain_append.mpr ⟨hp.isChain, .singleton _, ?_⟩
      rintro m hm _ - ⟨hnumeral, -⟩
      rw [Expectation.meets_number, hp.number m hm hnumeral] at h
      cases h
    · rw [List.reverse_append]
      rfl
  | @sign op h hop hsigned =>
    refine hp.symbol ?_
    rw [hexpected]
    cases op <;> first | rfl | exact absurd hop (by decide)
  | @operator op h hop hsign =>
    refine hp.symbol ?_
    rw [hexpected]
    cases op <;> first | rfl | exact absurd hop (by decide)
  | enter h => exact hp.symbol (congrArg Expectation.sign hexpected)
  | leave h hdepth => exact hp.symbol (congrArg Expectation.sign hexpected)

/-- Behind any run from the left, this is so. -/
lemma Reads.looksBack (h : Reads step .forward (.start .forward) ls rest q) : LooksBack ls q :=
  h.invariant (fun hp htakes => LooksBack.takes hp htakes) [] looksBack_start

/-- A reader that has come to the end of a text from the left expects a sign exactly where the text,
read from the right, lets one stand. -/
theorem sign_of_pass_forward {s : Text} {start pos : Int}
    (h : (Pass.forward step (.start .forward) start pos (split .forward s)).progress = .ok p) :
    p.expected.sign = admitSign (split .backward s.reverse) := by
  have hreads := pass_forward_eq_ok_iff.mp h
  obtain ⟨hchain, -, hsign⟩ := hreads.looksBack
  have hknown := hreads.isKnown fun l hl => hl
  obtain ⟨-, hbackward⟩ :=
    (spells_visible_split hknown).visible_split (isTerminal_of_mem_visible hknown) hchain
  rw [hsign, ← admitSign_visible (split .backward s.reverse), hbackward]

/-- From the left, a pass that has come to the end of a row goes on with what follows the row. -/
lemma pass_forward_append {start pos : Int} {more : List Lexeme}
    (h : (Pass.forward step p start pos row).progress = .ok q) :
    ∃ start', Pass.forward step p start pos (row ++ more) =
      Pass.forward step q start' (pos + width row) more := by
  induction row generalizing p start pos with
  | nil =>
    obtain rfl := Except.ok.inj h
    exact ⟨start, by simp [width]⟩
  | cons l row ih =>
    have hpos : pos + width (l :: row) = pos + l.length + width row := by
      simp only [width]
      omega
    rw [hpos]
    cases hread : p.readForward step pos l with
    | error f =>
      simp only [Pass.forward, hread] at h
      cases h
    | ok r =>
      simp only [Pass.forward, hread] at h
      simp only [List.cons_append, Pass.forward, hread]
      exact ih h

/-- From the left, a plus or minus is taken as a sign where one is expected, and as a binary
operator elsewhere. -/
lemma Takes.sign_or_operator {op : Operator} (hop : op.isSign)
    (h : Takes step .forward true p (.symbol op) cat q) :
    cat = .sign ∧ p.expected.sign ∨ cat = .operator ∧ p.expected.sign = false := by
  cases h with
  | sign h => exact .inl ⟨rfl, by rwa [Expectation.meets_sign] at h⟩
  | operator _ _ hsign =>
    have hnone := hsign hop rfl
    rw [Expectation.meets_sign] at hnone
    exact .inr ⟨rfl, hnone⟩
  | enter | leave => cases hop

/-- From the left, it depends on whether a sign is expected as what a plus or minus is taken. -/
lemma Takes.sign_iff {op : Operator} (hop : op.isSign)
    (h : Takes step .forward true p (.symbol op) cat q) :
    (Takes step .forward true p (.symbol op) .sign q ↔ p.expected.sign = true) ∧
      (Takes step .forward true p (.symbol op) .operator q ↔ p.expected.sign = false) := by
  constructor
  · constructor
    · intro hsign
      rcases hsign.sign_or_operator hop with ⟨-, hsome⟩ | ⟨hcat, -⟩
      · exact hsome
      · cases hcat
    · intro hsome
      rcases h.sign_or_operator hop with ⟨rfl, -⟩ | ⟨-, hnone⟩
      · exact h
      · rw [hnone] at hsome
        cases hsome
  · constructor
    · intro hoperator
      rcases hoperator.sign_or_operator hop with ⟨hcat, -⟩ | ⟨-, hnone⟩
      · cases hcat
      · exact hnone
    · intro hnone
      rcases h.sign_or_operator hop with ⟨-, hsome⟩ | ⟨rfl, -⟩
      · rw [hnone] at hsome
        cases hsome
      · exact h

end Progress

open Progress

variable {t : Text} {i : Nat} {op : Operator}

/-! ## Cursors in front of a symbol -/

/-- Where a symbol stands in a text, the lexemes of the text are those of what is in front of it,
the symbol, and the lexemes of what is behind it. -/
lemma Lexeme.split_at_symbol (dir : Direction) (hat : t[i]? = some op.toChar) :
    split dir t = split dir (t.take i) ++ .symbol op :: split dir (t.drop (i + 1)) := by
  have hpart : Numeral.isPart op.toChar = false := by cases op <;> rfl
  have hchar : ofChar op.toChar = .symbol op := by rw [ofChar, Operator.ofChar?_toChar]
  obtain ⟨hinside, hop⟩ := List.getElem?_eq_some_iff.mp hat
  have hseam : Numeral.IsSeam (t.take i) (op.toChar :: t.drop (i + 1)) := by
    rintro a - b hb -
    obtain rfl := Option.some.inj hb
    exact hpart
  rw [← hchar, ← split_cons dir hpart, ← split_append hseam, ← hop,
    ← List.drop_eq_getElem_cons hinside, List.take_append_drop]

/-- At a place of a text, a cursor looks at what is in front of it, read from the right. -/
lemma Cursor.admitsSign_place (hi : i ≤ t.length) :
    (place t i none none).admitsSign =
      .ok (admitSign (split .backward (t.take i).reverse)) := by
  have hinside : ¬ ((t.length : Int) < i) := by omega
  rw [admitsSign, place, if_neg hinside, Text.behind, Int.toNat_natCast]

/-- Where a plus or minus stands in a text at position `i`, a reader from the left that has come to
it without a fault and reads it goes on behind it.  It takes it as a sign exactly if a cursor at `i`
tells that a sign may stand there, and as a binary operator exactly if the cursor tells that none
may. -/
theorem takes_sign_iff_admitsSign {p q : Progress} (hop : op.isSign)
    (hat : t[i]? = some op.toChar)
    (hbefore : (Pass.forward Settings.standard.nestingStep (.start .forward) 0 0
      (split .forward (t.take i))).progress = .ok p)
    (hread : p.readForward Settings.standard.nestingStep i (.symbol op) = .ok q) :
    Pass.forward Settings.standard.nestingStep (.start .forward) 0 0 (split .forward t) =
        Pass.forward Settings.standard.nestingStep q i (i + 1) (split .forward (t.drop (i + 1))) ∧
      (Takes Settings.standard.nestingStep .forward true p (.symbol op) .sign q ↔
        (Cursor.place t i none none).admitsSign = .ok true) ∧
      (Takes Settings.standard.nestingStep .forward true p (.symbol op) .operator q ↔
        (Cursor.place t i none none).admitsSign = .ok false) := by
  have hinside : i < t.length := (List.getElem?_eq_some_iff.mp hat).1
  have hlook : (Cursor.place t i none none).admitsSign = .ok p.expected.sign := by
    rw [Cursor.admitsSign_place hinside.le, sign_of_pass_forward hbefore]
  obtain ⟨start, hpass⟩ := pass_forward_append hbefore
  have hplace : (0 : Int) + width (split .forward (t.take i)) = i := by
    rw [width_split, List.length_take_of_le hinside.le, Int.zero_add]
  obtain ⟨cat, htakes⟩ := (readForward_eq_ok_iff rfl _).mp hread
  rw [hlook, Except.ok.injEq, Except.ok.injEq]
  refine ⟨?_, htakes.sign_iff hop⟩
  rw [split_at_symbol .forward hat, hpass, hplace]
  simp only [Pass.forward, hread]
  rfl

/-- In `()(2)--3`, behind two groups side by side, the first minus is a binary operator and the
second one a sign, for a reader from the left as well as for a cursor. -/
theorem takes_sign_iff_admitsSign_behind_groups :
    ∃ p q r, (Pass.forward Settings.standard.nestingStep (.start .forward) 0 0
        (split .forward ['(', ')', '(', '2', ')'])).progress = .ok p ∧
      Takes Settings.standard.nestingStep .forward true p (.symbol .minus) .operator q ∧
      Takes Settings.standard.nestingStep .forward true q (.symbol .minus) .sign r ∧
      (Cursor.place ['(', ')', '(', '2', ')', '-', '-', '3'] 5 none none).admitsSign = .ok false ∧
      (Cursor.place ['(', ')', '(', '2', ')', '-', '-', '3'] 6 none none).admitsSign =
        .ok true := by
  obtain ⟨p, hp, q, hq, hp', r, hr⟩ : ∃ p, (Pass.forward Settings.standard.nestingStep
        (.start .forward) 0 0 (split .forward ['(', ')', '(', '2', ')'])).progress = .ok p ∧
      ∃ q, p.readForward Settings.standard.nestingStep (5 : Nat) (.symbol .minus) = .ok q ∧
        (Pass.forward Settings.standard.nestingStep (.start .forward) 0 0
          (split .forward ['(', ')', '(', '2', ')', '-'])).progress = .ok q ∧
        ∃ r, q.readForward Settings.standard.nestingStep (6 : Nat) (.symbol .minus) = .ok r :=
    ⟨_, rfl, _, rfl, rfl, _, rfl⟩
  have hfirst : (Cursor.place ['(', ')', '(', '2', ')', '-', '-', '3'] (5 : Nat) none
    none).admitsSign = .ok false := rfl
  have hsecond : (Cursor.place ['(', ')', '(', '2', ')', '-', '-', '3'] (6 : Nat) none
    none).admitsSign = .ok true := rfl
  have hminus : Operator.minus.isSign := rfl
  have hat : ['(', ')', '(', '2', ')', '-', '-', '3'][5]? = some Operator.minus.toChar := rfl
  have hat' : ['(', ')', '(', '2', ')', '-', '-', '3'][6]? = some Operator.minus.toChar := rfl
  have hoperator := (takes_sign_iff_admitsSign hminus hat hp hq).2.2.mpr hfirst
  have hsign := (takes_sign_iff_admitsSign hminus hat' hp' hr).2.1.mpr hsecond
  exact ⟨p, q, r, hp, hoperator, hsign, hfirst, hsecond⟩

end Reckoner
