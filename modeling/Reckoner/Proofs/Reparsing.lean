import Reckoner.Proofs.Evaluability
import Reckoner.Proofs.Reading.Columns
import Reckoner.Proofs.Rendering

/-!
# Rendered expressions are parsed again

What has been parsed can always be rendered.  If its numbers are finite, then the rendered text is
parsed into the same tokens, but for their priorities, and so it is rendered as itself; if one of
them is not, then the text is refused, since infinity has no numeral (`parse_of_toInfix`).

Rendering goes through a list of tokens with texts on its stack.  `Grammar.Shows` ties each of them
to the tokens that it comes from: the text spells a unary expression whose tree has these tokens in
post-order.  Every token keeps this (`Infix.ShowsAll.act`), so that the one text which is left in
the end shows them all (`Infix.shows_of_run`).  Nothing that has been written is lost
(`Infix.mem_run`): the name of an infinity is still there in the end, and a text with a character
that is unrelated to expressions is never parsed (`parse_forward_ne_ok`).
-/

namespace Reckoner

open Grammar Lexeme Progress

/-! ## What a parse leaves -/

namespace Token

/-- A token without its priority. -/
def bare : Token → Token
  | number v _ => .number v 0
  | unary op _ => .unary op 0
  | binary op _ => .binary op 0
  | empty tag _ => .empty tag 0

/-- The tokens that a text can write: a number has a numeral, and of the signs only the minus leaves
a token. -/
def IsWritten : Token → Prop
  | number v _ => ∃ w, Numeral.IsNumeral w ∧ v = Numeral.value w
  | unary op _ => op = .minus
  | binary .. | empty .. => True

end Token

namespace Progress

variable {step : Int} {dir : Direction} {signed : Bool} {p q : Progress} {l : Lexeme}
  {cat : Category} {ls rest : List Lexeme}

/-- What is taken adds written tokens to written ones. -/
lemma Takes.isWritten (h : Takes step dir signed p l cat q)
    (hl : ∀ w, l = .numeral w → Numeral.IsNumeral w) (hp : ∀ t ∈ p.tokens, t.IsWritten) :
    ∀ t ∈ q.tokens, t.IsWritten := by
  cases h with
  | @number w k _ hk =>
    have hw : Numeral.IsNumeral w := hl w rfl
    rw [Token.ofNumeral_eq_ok hw] at hk
    obtain rfl := Except.ok.inj hk
    exact List.forall_mem_cons.mpr ⟨⟨w, hw, rfl⟩, hp⟩
  | @sign op _ _ _ =>
    rw [pushSign_tokens]
    split
    · rename_i hminus
      exact List.forall_mem_cons.mpr ⟨hminus, hp⟩
    · exact hp
  | operator => exact List.forall_mem_cons.mpr ⟨trivial, hp⟩
  | enter => exact hp
  | leave =>
    rw [pushEmpty_tokens]
    split
    · exact List.forall_mem_cons.mpr ⟨trivial, hp⟩
    · exact hp

/-- A run over lexemes with numerals leaves written tokens. -/
lemma Reads.isWritten (h : Reads step dir p ls rest q) (hls : HasNumerals ls)
    (hp : ∀ t ∈ p.tokens, t.IsWritten) : ∀ t ∈ q.tokens, t.IsWritten := by
  induction h with
  | nil => exact hp
  | cons head _ ih =>
    have hfirst := head.isWritten (fun w hw => hls w (by simp [hw])) hp
    exact ih hls.tail hfirst

end Progress

/-- In what has been parsed every operator finds its operands and one operand is left, and only
sound tokens that a text can write are there. -/
lemma Cursor.tally_of_parse {dir : Direction} {c : Cursor} {ts : List Token}
    (h : (c.parse dir).1 = .ok ts) (hne : ts ≠ []) :
    Token.tally Token.arity 0 ts = some 1 ∧ ∀ t ∈ ts, t.IsSound ∧ t.IsWritten := by
  obtain ⟨ls, rest, q, hnumerals, hreads, -, horder⟩ := exists_hasNumerals_of_parse h
  obtain ⟨hbalanced, harrange⟩ := order_eq_some_iff.mp ⟨horder, hne⟩
  have hsound := hreads.isSound
  have hwritten := hreads.isWritten hnumerals (List.forall_mem_nil _)
  have hall : ∀ t ∈ q.tokens, t.IsSound ∧ t.IsWritten := fun t ht => ⟨hsound t ht, hwritten t ht⟩
  have hnone : ∀ o ∈ ([] : List Token), o.isOperator := List.forall_mem_nil _
  have hfound := Token.tally_arrange hnone (hreads.tally_eq_one hbalanced)
  rw [harrange] at hfound
  refine ⟨hfound, ?_⟩
  intro t ht
  rw [← harrange, (Token.arrange_perm [] _).mem_iff] at ht
  cases dir <;> exact hall t (by simpa [Direction.infixOrder] using ht)

/-! ## Texts and the tokens that they come from -/

namespace Grammar

/-- The texts of some tokens: they spell a unary expression with these tokens, priorities aside. -/
def Shows (x : Text) (ts : List Token) : Prop :=
  ∃ ls e, Derives .unary ls e ∧ Spells ls x ∧
    ∀ step depth, (e.postOrder step depth).map Token.bare = ts

variable {op : Operator} {x y : Text} {ts us : List Token}

/-- A written number that is finite is shown by its numeral. -/
lemma shows_operand {v : Float} {p : Int} (hv : v.isFinite) (hw : (Token.number v p).IsWritten) :
    Shows (Infix.operand v) [.number v 0] := by
  obtain ⟨w, -, rfl⟩ := hw
  obtain ⟨t, ht, hvalue, htext⟩ := exists_operand_eq hv (Numeral.isNegative_value w)
  refine ⟨_, _, .promote (.numeral ht), ?_, ?_⟩
  · rw [htext]
    exact spells_numeral t
  · intro step depth
    rw [← hvalue]
    rfl

/-- An empty group is shown by a pair of parentheses. -/
lemma shows_empty : Shows ['(', ')'] [.emptyGroup] :=
  ⟨_, _, .promote .empty, .lexeme (.symbol .leftParenthesis)
    (.lexeme (.symbol .rightParenthesis) .nil), fun _ _ => rfl⟩

/-- A minus in front of a text comes behind the tokens of the text. -/
lemma Shows.signed (hx : Shows x ts) : Shows (Infix.signed .minus x) (ts ++ [.unary .minus 0]) := by
  obtain ⟨ls, e, he, hspells, htokens⟩ := hx
  have hsigned : Derives .unary (.symbol .minus :: ls) (.signed .minus e) := .signed rfl he
  refine ⟨_, _, hsigned, .lexeme (.symbol .minus) hspells, ?_⟩
  intro step depth
  rw [Tree.postOrder, if_pos rfl, List.map_append, htokens]
  rfl

/-- An operator between two texts comes behind the tokens of both. -/
lemma Shows.operation (hop : op.isArithmetic) (hx : Shows x ts) (hy : Shows y us) :
    Shows (Infix.operation op x y) (ts ++ us ++ [.binary op 0]) := by
  obtain ⟨ls, e, he, hlspells, hts⟩ := hx
  obtain ⟨ms, f, hf, hmspells, hus⟩ := hy
  obtain ⟨ns, hoperation, hspells⟩ := exists_derives_operation hop he hlspells hf hmspells
  refine ⟨ns, _, hoperation, hspells, ?_⟩
  intro step depth
  rw [Tree.postOrder, Tree.postOrder, List.map_append, List.map_append, hts, hus]
  rfl

end Grammar

/-! ## Rendering token by token -/

namespace Infix

variable {t : Token} {ts : List Token} {texts texts' : List Text} {m : Nat}

/-- A sound token that finds its operands is rendered, and leaves one text for them. -/
lemma exists_act_of_arity (ht : t.IsSound) (hneed : t.arity ≤ texts.length) :
    ∃ texts', act texts t = .ok texts' ∧ texts'.length = texts.length + 1 - t.arity := by
  cases t with
  | number v p => exact ⟨_, rfl, rfl⟩
  | empty tag p =>
    obtain ⟨rfl, rfl⟩ := Token.empty.inj ht
    exact ⟨_, rfl, rfl⟩
  | unary op p =>
    obtain ⟨x, rest, rfl⟩ := List.exists_cons_of_length_pos hneed
    exact ⟨_, rfl, rfl⟩
  | binary op p =>
    obtain ⟨y, rest, rfl⟩ := List.exists_cons_of_length_pos (Nat.lt_of_succ_lt hneed)
    obtain ⟨x, rest, rfl⟩ := List.exists_cons_of_length_pos (Nat.lt_of_succ_lt_succ hneed)
    exact ⟨_, rfl, rfl⟩

/-- Where all operands are found, a list of sound tokens is rendered. -/
lemma exists_run_of_tally (h : Token.tally Token.arity texts.length ts = some m)
    (hts : ∀ t ∈ ts, t.IsSound) : ∃ texts', run texts ts = .ok texts' ∧ texts'.length = m := by
  induction ts generalizing texts with
  | nil =>
    obtain rfl := Option.some.inj h
    exact ⟨texts, rfl, rfl⟩
  | cons t ts ih =>
    obtain ⟨hneed, hrest⟩ := Token.tally_cons_eq_some.mp h
    obtain ⟨ht, hothers⟩ := List.forall_mem_cons.mp hts
    obtain ⟨next, hact, hlength⟩ := exists_act_of_arity ht hneed
    rw [← hlength] at hrest
    rw [run, hact]
    exact ih hrest hothers

/-- What every token preserves, a list of tokens preserves; what is preserved may speak of the
tokens that have been rendered. -/
lemma run_invariant {I : List Text → List Token → Prop} {past : List Token}
    (hI : ∀ {texts past t texts'}, t ∈ ts → I texts past → act texts t = .ok texts' →
      I texts' (past ++ [t]))
    (h : I texts past) (hrun : run texts ts = .ok texts') : I texts' (past ++ ts) := by
  induction ts generalizing texts past with
  | nil =>
    obtain rfl := Except.ok.inj hrun
    rwa [List.append_nil]
  | cons t ts ih =>
    obtain ⟨next, hact, hrest⟩ := bind_eq_ok_iff.mp hrun
    have hnext := ih (fun ht => hI (List.mem_cons_of_mem _ ht)) (hI List.mem_cons_self h hact) hrest
    rwa [List.append_assoc, List.singleton_append] at hnext

/-- The texts of a stack, the first one at the bottom, show all tokens that have been rendered. -/
def ShowsAll (texts : List Text) (past : List Token) : Prop :=
  ∃ parts, List.Forall₂ Shows texts parts ∧ parts.reverse.flatten = past.map Token.bare

/-- A token that is rendered is shown with the others. -/
lemma ShowsAll.act {past : List Token} (h : ShowsAll texts past) (ht : t.IsSound)
    (hw : t.IsWritten) (hfinite : ∀ v p, t = .number v p → v.isFinite)
    (hact : Infix.act texts t = .ok texts') : ShowsAll texts' (past ++ [t]) := by
  obtain ⟨parts, hshows, hparts⟩ := h
  rw [ShowsAll, List.map_append, ← hparts]
  cases t with
  | number v p =>
    obtain rfl := Except.ok.inj hact
    refine ⟨_, .cons (shows_operand (hfinite v p rfl) hw) hshows, ?_⟩
    simp [Token.bare]
  | empty tag p =>
    obtain ⟨rfl, rfl⟩ := Token.empty.inj ht
    obtain rfl := Except.ok.inj hact
    refine ⟨_, .cons shows_empty hshows, ?_⟩
    simp [Token.bare, Token.emptyGroup]
  | unary op p =>
    -- A plus would be written, but read without leaving a token.
    obtain rfl := hw
    cases hshows with
    | nil => cases hact
    | cons hx hrest =>
      obtain rfl := Except.ok.inj hact
      refine ⟨_, .cons hx.signed hrest, ?_⟩
      simp [Token.bare]
  | binary op p =>
    cases hshows with
    | nil => cases hact
    | cons hy hrest =>
      cases hrest with
      | nil => cases hact
      | cons hx hrest =>
        obtain rfl := Except.ok.inj hact
        refine ⟨_, .cons (hx.operation ht hy) hrest, ?_⟩
        simp [Token.bare]

/-- A list of tokens that leaves one text is shown by it. -/
lemma shows_of_run {x : Text} (hts : ∀ t ∈ ts, t.IsSound ∧ t.IsWritten)
    (hfinite : ∀ v p, .number v p ∈ ts → v.isFinite) (hrun : run [] ts = .ok [x]) :
    Shows x (ts.map Token.bare) := by
  have hall : ShowsAll [x] ([] ++ ts) := by
    refine run_invariant (I := ShowsAll) ?_ ⟨[], .nil, rfl⟩ hrun
    intro texts past t texts' ht hpast hact
    obtain ⟨hsound, hwritten⟩ := hts t ht
    exact hpast.act hsound hwritten (fun v p hv => hfinite v p (hv ▸ ht)) hact
  obtain ⟨parts, hshows, hparts⟩ := hall
  obtain ⟨part, rest, hx, hrest, rfl⟩ := List.forall₂_cons_left_iff.mp hshows
  obtain rfl := List.forall₂_nil_left_iff.mp hrest
  rw [List.reverse_singleton, List.flatten_singleton, List.nil_append] at hparts
  rwa [← hparts]

/-- No character of a stack is lost when a token is rendered. -/
lemma mem_act {c : Char} (hc : c ∈ texts.flatten) (hact : act texts t = .ok texts') :
    c ∈ texts'.flatten := by
  unfold act at hact
  split at hact
  · obtain rfl := Except.ok.inj hact
    exact List.mem_append_right _ hc
  · split at hact
    · obtain rfl := Except.ok.inj hact
      rw [List.flatten_cons, List.mem_append] at hc ⊢
      exact hc.imp_left (List.mem_cons_of_mem _)
    · cases hact
  · split at hact
    · obtain rfl := Except.ok.inj hact
      simp only [List.flatten_cons, operation, List.mem_append, List.mem_cons] at hc ⊢
      tauto
    · cases hact
  · split at hact
    · obtain rfl := Except.ok.inj hact
      exact List.mem_append_right _ hc
    · split at hact <;> cases hact

/-- A rendered list of tokens has the characters of all its numbers. -/
lemma mem_run {v : Float} {p : Int} (hv : .number v p ∈ ts) {c : Char} (hc : c ∈ operand v)
    (hrun : run texts ts = .ok texts') : c ∈ texts'.flatten := by
  let Kept (texts : List Text) (past : List Token) : Prop :=
    .number v p ∈ past → c ∈ texts.flatten
  have hkept : Kept texts' ([] ++ ts) := by
    refine run_invariant (I := Kept) ?_ ?_ hrun
    · intro texts past t texts' _ hpast hact hmem
      rcases List.mem_append.mp hmem with hearlier | hnow
      · exact mem_act (hpast hearlier) hact
      · obtain rfl := List.mem_singleton.mp hnow
        obtain rfl := Except.ok.inj hact
        exact List.mem_append_left _ hc
    · intro hnone
      exact absurd hnone List.not_mem_nil
  exact hkept hv

/-- A rendered operand has the characters of its number. -/
lemma mem_operand {v : Float} {c : Char} (hc : c ∈ Double.plain v) : c ∈ operand v := by
  unfold operand
  split
  · rename_i digits hplain
    rw [hplain] at hc
    exact List.mem_cons_of_mem '(' (List.mem_append_left [')'] hc)
  · exact hc

/-- The operand of a number that is not finite has a letter. -/
lemma mem_operand_of_not_isFinite {v : Float} (hv : v.isFinite = false) : 'n' ∈ operand v := by
  apply mem_operand
  have hmagnitude : Double.infinity ≤ Double.magnitude v := by
    rw [← Nat.not_lt, ← Double.isFinite_iff, hv]
    exact Bool.false_ne_true
  -- The letter is in both names, that of an infinity and that of what is no number.
  rw [Double.plain, Double.written]
  rcases hmagnitude.lt_or_eq with hbeyond | hinfinity
  · simp [hbeyond]
  · split
    · simp
    · simp only [← hinfinity, if_true]
      split <;> simp

/-- Priorities of sound tokens have no say in how they are rendered. -/
lemma run_map_bare (hts : ∀ t ∈ ts, t.IsSound) (texts : List Text) :
    run texts (ts.map Token.bare) = run texts ts := by
  induction ts generalizing texts with
  | nil => rfl
  | cons t ts ih =>
    obtain ⟨ht, hothers⟩ := List.forall_mem_cons.mp hts
    have hact : act texts t.bare = act texts t := by
      cases t with
      | number | unary | binary => rfl
      | empty tag p =>
        obtain ⟨rfl, rfl⟩ := Token.empty.inj ht
        rfl
    rw [List.map_cons, run, run, hact]
    exact congrArg _ (funext (ih hothers))

end Infix

/-- A list of tokens that leaves one text is rendered as this text. -/
lemma toInfix_eq_of_run {ts : List Token} {x : Text} (h : Infix.run [] ts = .ok [x]) :
    toInfix ts = .ok x := by
  rw [toInfix, h]
  simp [bind, Except.bind, pure, Except.pure, List.intercalate]

/-! ## Characters without a place -/

/-- No lexeme of the grammar has a character that is unrelated to expressions. -/
lemma Lexeme.IsKnown.isUnrelated_eq_false {l : Lexeme} (hl : l.IsKnown) {c : Char}
    (hc : c ∈ l.text) : Text.isUnrelated c = false := by
  cases l with
  | numeral w =>
    have hpart : Numeral.isPart c := Numeral.IsNumeral.isPart hl c hc
    simp [Text.isUnrelated, hpart]
  | symbol op =>
    obtain rfl := List.mem_singleton.mp hc
    simp [Text.isUnrelated]
  | white d =>
    obtain rfl := List.mem_singleton.mp hc
    have hwhite : Text.isWhite c := hl
    simp [Text.isUnrelated, hwhite]
  | foreign d => exact hl.elim

/-- From the left, no text with a character that is unrelated to expressions is parsed. -/
theorem parse_forward_ne_ok {t : Text} {c : Char} (hc : c ∈ t) (hunrelated : Text.isUnrelated c)
    (ts : List Token) : parse .forward t ≠ .ok ts := by
  intro h
  obtain ⟨q, hreads, -, -⟩ := parse_forward_eq_ok_iff.mp h
  rw [← joined_split .forward t] at hc
  obtain ⟨l, hl, hmem⟩ := List.mem_flatMap.mp hc
  have hknown := hreads.isKnown (fun l hl => hl) l hl
  rw [hknown.isUnrelated_eq_false hmem] at hunrelated
  exact Bool.false_ne_true hunrelated

/-! ## Parsing what has been rendered -/

/-- A text that shows sound tokens is parsed into them, priorities aside, and rendered as they are.
-/
lemma Grammar.Shows.exists_parse_forward_eq_ok {x : Text} {ts : List Token}
    (hx : Shows x (ts.map Token.bare)) (hne : ts ≠ []) (hts : ∀ t ∈ ts, t.IsSound) :
    ∃ us, parse .forward x = .ok us ∧ us.map Token.bare = ts.map Token.bare ∧
      Infix.run [] us = Infix.run [] ts := by
  obtain ⟨ls, e, he, hspells, htokens⟩ := hx
  have hparse := he.sum_of_unary.parse_forward hspells
  have hbare := htokens Settings.standard.nestingStep 0
  have hsome : e.postOrder Settings.standard.nestingStep 0 ≠ [] := by
    intro hnone
    rw [hnone] at hbare
    exact hne (List.map_eq_nil_iff.mp hbare.symm)
  obtain ⟨-, hall⟩ := Cursor.tally_of_parse hparse hsome
  refine ⟨_, hparse, hbare, ?_⟩
  rw [← Infix.run_map_bare fun t ht => (hall t ht).1, hbare, Infix.run_map_bare hts]

/-- What has been parsed is rendered.  If its numbers are finite, the rendered text is parsed into
the same tokens, priorities aside, and is rendered as itself; else it is malformed. -/
theorem parse_of_toInfix {dir : Direction} {s : Text} {ts : List Token}
    (h : parse dir s = .ok ts) :
    ∃ x, toInfix ts = .ok x ∧
      ((∀ v p, .number v p ∈ ts → v.isFinite) → ∃ us, parse .forward x = .ok us ∧
        us.map Token.bare = ts.map Token.bare ∧ toInfix us = .ok x) ∧
      ((∃ v p, .number v p ∈ ts ∧ v.isFinite = false) → ∃ reason column,
        parse .forward x = .error (.malformed reason column)) := by
  by_cases hne : ts = []
  · subst hne
    exact ⟨[], rfl, fun _ => ⟨[], rfl, rfl, rfl⟩, by simp⟩
  obtain ⟨htally, hall⟩ := Cursor.tally_of_parse h hne
  have hsound : ∀ t ∈ ts, t.IsSound := fun t ht => (hall t ht).1
  have hstart : Token.tally Token.arity ([] : List Text).length ts = some 1 := htally
  obtain ⟨texts, hrun, hlength⟩ := Infix.exists_run_of_tally hstart hsound
  obtain ⟨x, rfl⟩ := List.length_eq_one_iff.mp hlength
  refine ⟨x, toInfix_eq_of_run hrun, ?_, ?_⟩
  · intro hfinite
    have hshows := Infix.shows_of_run hall hfinite hrun
    obtain ⟨us, hparse, hbare, hsame⟩ := hshows.exists_parse_forward_eq_ok hne hsound
    exact ⟨us, hparse, hbare, toInfix_eq_of_run (hsame.trans hrun)⟩
  · rintro ⟨v, p, hv, hinfinite⟩
    have hletter := Infix.mem_run hv (Infix.mem_operand_of_not_isFinite hinfinite) hrun
    rw [List.flatten_singleton] at hletter
    cases hparse : parse .forward x with
    | ok us => exact absurd hparse (parse_forward_ne_ok hletter (by decide) us)
    | error f =>
      obtain ⟨column, ⟨reason, rfl⟩, -⟩ := showsIn_of_parse f hparse
      exact ⟨reason, column, rfl⟩

/-- The tokens of `2--(.5)` are rendered with all parentheses and without those around the numeral,
and have other priorities when they are parsed again. -/
theorem parse_of_toInfix_difference :
    ∃ ts us, parse .forward ['2', '-', '-', '(', '.', '5', ')'] = .ok ts ∧
      toInfix ts = .ok ['(', '2', ' ', '-', ' ', '-', '0', '.', '5', ')'] ∧
      parse .forward ['(', '2', ' ', '-', ' ', '-', '0', '.', '5', ')'] = .ok us ∧
      us.map Token.bare = ts.map Token.bare ∧
      toInfix us = .ok ['(', '2', ' ', '-', ' ', '-', '0', '.', '5', ')'] := by
  let ts : List Token := [.number (Numeral.value ['2']) 0, .number (Numeral.value ['.', '5']) 0,
    .unary .minus 2, .binary .minus 0]
  have hparse : parse .forward ['2', '-', '-', '(', '.', '5', ')'] = .ok ts := rfl
  have htwo : Double.plain (Numeral.value ['2']) = ['2'] := by decide +kernel
  have hhalf : Double.plain (Numeral.value ['.', '5']) = ['0', '.', '5'] := by decide +kernel
  have htext : toInfix ts = .ok ['(', '2', ' ', '-', ' ', '-', '0', '.', '5', ')'] := by
    simp only [toInfix, ts, Infix.run, Infix.act, Infix.operand, htwo, hhalf]
    rfl
  have hfinite : ∀ v p, .number v p ∈ ts → v.isFinite := by
    intro v p hv
    simp only [ts, List.mem_cons, Token.number.injEq, reduceCtorEq, List.not_mem_nil, or_false]
      at hv
    rcases hv with ⟨rfl, -⟩ | ⟨rfl, -⟩
    · decide +kernel
    · decide +kernel
  obtain ⟨x, hx, hsame, -⟩ := parse_of_toInfix hparse
  rw [htext] at hx
  obtain rfl := Except.ok.inj hx
  obtain ⟨us, hagain, hbare, hfixed⟩ := hsame hfinite
  exact ⟨ts, us, hparse, htext, hagain, hbare, hfixed⟩

/-- A numeral of three hundred and ten digits denotes infinity, which is rendered by its name, and a
name is no expression. -/
theorem not_parse_of_toInfix_infinity :
    ∃ v, parse .forward ('1' :: List.replicate 309 '0') = .ok [.number v 0] ∧
      toInfix [.number v 0] = .ok ['i', 'n', 'f'] ∧
      parse .forward ['i', 'n', 'f'] = .error (.malformed .unknownCharacter 0) := by
  have hdigits : ∀ c ∈ '1' :: List.replicate 309 '0', c.isDigit := by
    intro c hc
    rcases List.mem_cons.mp hc with rfl | hzero
    · rfl
    · rw [List.eq_of_mem_replicate hzero]
      rfl
  have hnumeral : Derives .unary [.numeral ('1' :: List.replicate 309 '0')] _ :=
    .promote (.numeral (.whole (List.cons_ne_nil _ _) hdigits))
  have hparse := hnumeral.sum_of_unary.parse_forward (spells_numeral _)
  have hplain : Double.plain (Numeral.value ('1' :: List.replicate 309 '0')) = ['i', 'n', 'f'] := by
    decide +kernel
  refine ⟨_, hparse, ?_, rfl⟩
  simp only [toInfix, Infix.run, Infix.act, Infix.operand, hplain]
  rfl

end Reckoner
