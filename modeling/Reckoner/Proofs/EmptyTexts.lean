import Reckoner.Proofs.Reading.Columns
import Reckoner.Proofs.Reading.Relocation
import Reckoner.Proofs.Terms

/-!
# Texts without tokens

From the left, a text has no tokens, and no value, exactly if it is made of white characters and
plus signs (`parse_forward_empty_iff`).  A plus is taken as a sign and leaves nothing, so a row of
them is read like no lexemes at all, although an operand is missing at its end.  Anything else
leaves a token or is malformed: a group that has no token in it cannot be closed without leaving the
marker of an empty group.
-/

namespace Reckoner

open Lexeme

/-- Nothing but white characters and plus signs. -/
def Text.IsIdle (t : Text) : Prop := ∀ c ∈ t, Text.isWhite c ∨ c = '+'

/-! ## Lexemes -/

namespace Lexeme

variable {t : Text}

/-- The visible lexemes of white characters and plus signs are plus signs. -/
lemma eq_plus_of_isIdle (h : t.IsIdle) : ∀ l ∈ visible (split .forward t), l = .symbol .plus := by
  induction t with
  | nil => simp [split, splitFrom, visible]
  | cons c t ih =>
    obtain ⟨hc, hrest⟩ := List.forall_mem_cons.mp h
    rcases hc with hwhite | rfl
    · rw [split_white_cons .forward hwhite]
      exact ih hrest
    · have hplus : split .forward ('+' :: t) = .symbol .plus :: split .forward t :=
        split_cons .forward rfl t
      rw [hplus, visible_cons rfl]
      exact List.forall_mem_cons.mpr ⟨rfl, ih hrest⟩

/-- A text of known lexemes, of which the visible ones are plus signs, is made of white characters
and plus signs. -/
lemma isIdle_of_eq_plus (hknown : ∀ l ∈ split .forward t, l.IsKnown)
    (h : ∀ l ∈ visible (split .forward t), l = .symbol .plus) : t.IsIdle := by
  intro c hc
  rw [← joined_split .forward t] at hc
  obtain ⟨l, hl, hchar⟩ := List.mem_flatMap.mp hc
  cases hwhite : l.isWhite with
  | true =>
    obtain ⟨d, rfl⟩ := exists_eq_white hwhite
    obtain rfl := List.mem_singleton.mp hchar
    exact .inl (hknown _ hl)
  | false =>
    obtain rfl := h l (by simp [visible, hl, hwhite])
    exact .inr (List.mem_singleton.mp hchar)

end Lexeme

/-! ## Tokens -/

namespace Progress

variable {step : Int} {signed : Bool} {p q : Progress} {l : Lexeme} {cat : Category}
  {row ls rest : List Lexeme}

/-- A reader without tokens is in front of an operand, and where no parenthesis is open, it has
taken nothing but plus signs. -/
structure Idle (row : List Lexeme) (p : Progress) : Prop where
  state : ∃ c, p.expected = .following .forward c
  operand : p.tokens = [] → p.expected.operator = false
  plus : p.tokens = [] → p.depth = 0 → ∀ l ∈ row, l = .symbol .plus

/-- Before anything has been read, this is so. -/
lemma idle_start : Idle [] (.start .forward) where
  state := ⟨.operator, Expectation.start_eq .forward⟩
  operand _ := rfl
  plus _ _ := List.forall_mem_nil _

/-- Where there are no tokens, a group can be closed only if nothing stands in it. -/
lemma Idle.not_leave (hp : Idle row p) (htokens : p.tokens = [])
    (hempty : p.expected.emptyGroup = false) :
    p.expected.meets (.required .forward .closing) = false := by
  obtain ⟨c, hc⟩ := hp.state
  have hoperand := hp.operand htokens
  rw [hc] at hoperand hempty ⊢
  rw [Expectation.meets_closing_forward, Expectation.closing_following_forward, hoperand, hempty]
  rfl

/-- What is taken from the left changes nothing about this. -/
lemma Idle.takes (hp : Idle row p) (h : Takes step .forward signed p l cat q) :
    Idle (row ++ [l]) q := by
  cases h with
  | number h hk => exact ⟨⟨.number, rfl⟩, nofun, nofun⟩
  | @sign op h hop _ =>
    refine ⟨⟨.sign, pushSign_expected op⟩, fun _ => by rw [pushSign_expected]; rfl, ?_⟩
    intro htokens hdepth
    rw [pushSign_tokens] at htokens
    rw [pushSign_depth] at hdepth
    obtain ⟨hsign, hbefore⟩ := List.append_eq_nil_iff.mp htokens
    have hplus : op = .plus := by
      cases op <;> first | rfl | exact absurd hop (by decide) | cases hsign
    rw [hplus]
    exact List.forall_mem_append.mpr
      ⟨hp.plus hbefore hdepth, List.forall_mem_singleton.mpr rfl⟩
  | operator h hop _ => exact ⟨⟨.operator, rfl⟩, nofun, nofun⟩
  | enter h => exact ⟨⟨.opening, rfl⟩, fun _ => rfl, fun _ => nofun⟩
  | @leave depth h hdepth =>
    -- The group leaves the marker of an empty one, or there is a token in it.
    have hsome : (pushEmpty ⟨.following .forward .closing, depth, p.tokens⟩
        p.expected.emptyGroup).tokens ≠ [] := by
      intro htokens
      rw [pushEmpty_tokens] at htokens
      obtain ⟨hmarker, hbefore⟩ := List.append_eq_nil_iff.mp htokens
      have hempty : p.expected.emptyGroup = false := by
        cases hhere : p.expected.emptyGroup with
        | false => rfl
        | true => simp [hhere] at hmarker
      have hclosed := hp.not_leave hbefore hempty
      rw [Direction.exit_forward, hclosed] at h
      cases h
    exact ⟨⟨.closing, pushEmpty_expected _⟩, fun h => absurd h hsome, fun h => absurd h hsome⟩

/-- A run from the left that leaves no tokens and no parenthesis open has taken nothing but plus
signs. -/
lemma Reads.eq_plus (h : Reads step .forward (.start .forward) ls rest q) (htokens : q.tokens = [])
    (hdepth : q.depth = 0) : ∀ l ∈ ls, l = .symbol .plus :=
  (h.invariant (fun hp htakes => Idle.takes hp htakes) [] idle_start).plus htokens hdepth

/-- From the left, plus signs are taken without leaving a token. -/
lemma reads_of_eq_plus (h : ∀ l ∈ ls, l = .symbol .plus) :
    Reads step .forward (.start .forward) ls [] (.start .forward) := by
  induction ls with
  | nil => exact .nil
  | cons l ls ih =>
    obtain ⟨rfl, hrest⟩ := List.forall_mem_cons.mp h
    have hsign : Takes step .forward true (.start .forward) (.symbol .plus) .sign
        (.start .forward) := .sign rfl rfl rfl
    exact .cons hsign (ih hrest)

end Progress

/-! ## Texts -/

open Progress

/-- From the left, a text has no tokens if it is made of white characters and plus signs. -/
lemma parse_forward_eq_nil_iff {t : Text} : parse .forward t = .ok [] ↔ t.IsIdle := by
  rw [parse_forward_eq_ok_iff]
  constructor
  · rintro ⟨q, hreads, hdepth, horder⟩
    have htokens : q.tokens = [] := List.reverse_eq_nil_iff.mp (eq_nil_of_order horder)
    exact isIdle_of_eq_plus (hreads.isKnown fun _ hl => hl) (hreads.eq_plus htokens hdepth)
  · intro h
    exact ⟨.start .forward, reads_of_eq_plus (eq_plus_of_isIdle h), rfl, rfl⟩

/-- From the left, a text has neither a token nor a value exactly if it is made of white characters
and plus signs.  Any other text has tokens, or it is malformed. -/
theorem parse_forward_empty_iff (t : Text) :
    (parse .forward t = .ok [] ↔ t.IsIdle) ∧ (evaluateText .forward t = .ok none ↔ t.IsIdle) ∧
      (t.IsIdle ∨ (∃ ts, parse .forward t = .ok ts ∧ ts ≠ []) ∨
        ∃ reason column, parse .forward t = .error (.malformed reason column)) := by
  refine ⟨parse_forward_eq_nil_iff, ?value, ?others⟩
  case value =>
    rw [← parse_forward_eq_nil_iff, evaluateText, Cursor.evaluate_fst, bind_eq_ok_iff]
    constructor
    · rintro ⟨ts, hparse, hvalue⟩
      obtain rfl := eq_nil_of_evaluate (mapError_eq_ok_iff.mp hvalue)
      exact hparse
    · intro hparse
      exact ⟨[], hparse, rfl⟩
  case others =>
    cases hparse : parse .forward t with
    | ok ts =>
      cases ts with
      | nil => exact .inl (parse_forward_eq_nil_iff.mp hparse)
      | cons k ts => exact .inr (.inl ⟨k :: ts, rfl, List.cons_ne_nil k ts⟩)
    | error f =>
      obtain ⟨column, ⟨reason, rfl⟩, -⟩ := showsIn_of_parse f hparse
      exact .inr (.inr ⟨reason, column, rfl⟩)

/-- The text `+` is not blank, and yet it has neither a token nor a value. -/
theorem parse_forward_empty_plus :
    parse .forward ['+'] = .ok [] ∧ evaluateText .forward ['+'] = .ok none ∧
      ¬ ∀ c ∈ ['+'], Text.isWhite c :=
  ⟨rfl, rfl, fun hblank => Bool.false_ne_true (hblank '+' List.mem_cons_self)⟩

end Reckoner
