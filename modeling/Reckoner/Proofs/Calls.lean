import Mathlib.Tactic.ByContra
import Reckoner.Cursor.Call

/-!
# When the calls of a cursor agree with each other

A cursor in front of a text never comes behind its end, whatever it is asked (`Within.perform`), but
it may be moved any distance in front of the text.  Reading on watches the end of the text alone,
while all other calls watch both ends.  So the calls agree with `peek`, and none of them fails, as
long as no character is read in front of the text, and there they never agree
(`along_coherent_iff`).
-/

namespace Reckoner

namespace Text

variable {t : Text} {i : Int}

/-- There is a character at a position inside the text. -/
lemma exists_at? (hnonneg : 0 ≤ i) (hlt : i < t.length) : ∃ ch, t.at? i = some ch := by
  have hinside : i.toNat < t.length := by omega
  refine ⟨t[i.toNat], ?_⟩
  rw [at?, if_neg (by omega), List.getElem?_eq_getElem hinside]

/-- There is no character at a position outside the text. -/
lemma at?_eq_none (h : i < 0 ∨ t.length ≤ i) : t.at? i = none := by
  unfold at?
  split
  · rfl
  · exact List.getElem?_eq_none (by omega)

end Text

namespace Cursor

/-- The cursor behind the current character. -/
def forth (c : Cursor) : Cursor := { c with pos := c.pos + 1 }

/-- The call does not fail.  To read on gives the current character and moves over it, and to eat
moves over it if it is of the class; where there is none, or none of the class, both stay. -/
def Coherent (c : Cursor) : Call → Prop
  | .next => ∃ ch, c.peek = .ok ch ∧ c.next = (.ok ch, if ch.isSome then c.forth else c)
  | .eat p => ∃ ch, c.peek = .ok ch ∧ c.eat p = (.ok (ch.any p), if ch.any p then c.forth else c)
  | call => ∃ answer, (c.perform call).1 = .ok answer

/-- All through a row of calls, `P` holds of the cursor that is asked and of the call. -/
def Along (P : Cursor → Call → Prop) (c : Cursor) : List Call → Prop
  | [] => True
  | call :: calls => P c call ∧ Along P (c.perform call).2 calls

/-- The cursor sees all of the text and does not stand behind it. -/
structure Within (t : Text) (c : Cursor) : Prop where
  text_eq : c.text = t
  stop_eq : c.stop = t.length
  pos_le : c.pos ≤ t.length

variable {t : Text} {c : Cursor}

/-! ## What a cursor sees -/

lemma within_ofText (t : Text) : Within t (ofText t) where
  text_eq := rfl
  stop_eq := rfl
  pos_le := Int.natCast_nonneg _

namespace Within

/-- What is seen is the character of the text at the position, if it has one there. -/
lemma peek_eq (h : Within t c) : c.peek = .ok (t.at? c.pos) := by
  obtain ⟨rfl, hstop, -⟩ := h
  unfold peek charAt
  rw [hstop]
  by_cases hinside : 0 ≤ c.pos ∧ c.pos < c.text.length
  · obtain ⟨ch, hch⟩ := Text.exists_at? hinside.1 hinside.2
    rw [if_pos hinside, hch]
    rfl
  · rw [if_neg hinside, Text.at?_eq_none (by omega)]

/-- Behind the beginning of the text, reading on gives what is seen, and moves over it. -/
lemma next_of_nonneg (h : Within t c) (hpos : 0 ≤ c.pos) :
    c.next = (.ok (t.at? c.pos), if (t.at? c.pos).isSome then c.forth else c) := by
  obtain ⟨rfl, hstop, -⟩ := h
  unfold next charAt
  rw [if_neg (show ¬ c.pos < 0 by omega)]
  by_cases hinside : c.pos < c.text.length
  · obtain ⟨ch, hch⟩ := Text.exists_at? hpos hinside
    rw [if_pos (by omega), hch]
    rfl
  · rw [if_neg (by omega), Text.at?_eq_none (by omega)]
    rfl

/-- In front of the text, reading on takes positions from its end, and fails where it is too short
for that. -/
lemma next_of_neg (h : Within t c) (hpos : c.pos < 0) :
    c.next = match t.at? (c.pos + t.length) with
      | some ch => (.ok (some ch), c.forth)
      | none => (.error .outOfRange, c) := by
  obtain ⟨rfl, hstop, -⟩ := h
  unfold next charAt
  rw [if_pos hpos, if_pos (by omega)]
  cases c.text.at? (c.pos + c.text.length) <;> rfl

/-- Eating moves over what is seen, if it is of the class. -/
lemma eat_eq (h : Within t c) (p : Char → Bool) :
    c.eat p = (.ok ((t.at? c.pos).any p), if (t.at? c.pos).any p then c.forth else c) := by
  unfold eat
  rw [h.peek_eq]
  cases t.at? c.pos with
  | none => rfl
  | some ch => cases hp : p ch <;> simp [hp, forth]

/-- Where all of the text is seen, no more than the text is. -/
lemma eatWhile_eq (h : Within t c) (p : Char → Bool) :
    c.eatWhile p = (.ok !(c.ahead.takeWhile p).isEmpty,
      { c with pos := c.pos + (c.ahead.takeWhile p).length }) := by
  have hpast : c.runsPast = false := by
    simp [runsPast, h.text_eq, h.stop_eq]
  simp [eatWhile, hpast]

/-! ## What the calls do to a cursor -/

/-- A cursor may be moved to any position that is not behind the text. -/
lemma move (h : Within t c) {pos : Int} (hpos : pos ≤ t.length) :
    Within t { c with pos := pos } where
  text_eq := h.text_eq
  stop_eq := h.stop_eq
  pos_le := hpos

/-- In front of the end, a cursor may go forth. -/
lemma forth (h : Within t c) (hpos : c.pos < t.length) : Within t c.forth :=
  h.move (by omega)

/-- No call takes the cursor behind the text. -/
theorem perform (h : Within t c) (call : Call) : Within t (c.perform call).2 := by
  have hle := h.pos_le
  cases call with
  | peek | atEnd | atStart | current => exact h
  | backUp n => exact h.move (by omega)
  | next =>
    show Within t c.next.2
    unfold Cursor.next
    split
    · rename_i hlt
      rw [h.stop_eq] at hlt
      split
      · exact h.forth hlt
      · exact h
    · exact h
  | eat p =>
    show Within t (c.eat p).2
    rw [h.eat_eq]
    cases hat : t.at? c.pos with
    | none => exact h
    | some ch =>
      have hlt : c.pos < t.length := by
        by_contra hge
        rw [Text.at?_eq_none (by omega)] at hat
        cases hat
      split
      · exact h.forth hlt
      · exact h
  | eatWhile p =>
    have hrun : (c.ahead.takeWhile p).length ≤ c.ahead.length :=
      (List.takeWhile_prefix p).length_le
    have hahead : c.pos + c.ahead.length ≤ t.length := by
      unfold ahead
      rw [h.text_eq]
      split
      · simpa using hle
      · rw [List.length_take, List.length_drop]
        omega
    show Within t (c.eatWhile p).2
    rw [h.eatWhile_eq]
    exact h.move (by omega)

/-- A call is coherent unless it reads on in front of the text. -/
theorem coherent_iff (h : Within t c) (call : Call) :
    c.Coherent call ↔ (call = .next → 0 ≤ c.pos) := by
  cases call with
  | next =>
    constructor
    · rintro ⟨ch, hpeek, hnext⟩ -
      by_contra hneg
      rw [h.peek_eq, Text.at?_eq_none (by omega)] at hpeek
      rw [h.next_of_neg (by omega)] at hnext
      obtain rfl := Except.ok.inj hpeek
      split at hnext <;> cases hnext
    · intro hpos
      exact ⟨_, h.peek_eq, h.next_of_nonneg (hpos rfl)⟩
  | eat p => exact iff_of_true ⟨_, h.peek_eq, h.eat_eq p⟩ nofun
  | peek => exact iff_of_true ⟨_, congrArg (Answer.character <$> ·) h.peek_eq⟩ nofun
  | backUp n =>
    have hmoved : Within t { c with pos := c.pos - n } := h.move (by have := h.pos_le; omega)
    exact iff_of_true ⟨_, congrArg (Answer.character <$> ·) hmoved.peek_eq⟩ nofun
  | eatWhile p =>
    have hrun := congrArg (Answer.flag <$> ·.1) (h.eatWhile_eq p)
    exact iff_of_true ⟨_, hrun⟩ nofun
  | atEnd | atStart | current => exact iff_of_true ⟨_, rfl⟩ nofun

/-! ## Rows of calls -/

variable {P Q : Cursor → Call → Prop}

/-- What holds of every cursor that is not behind the text holds all through a row of calls. -/
lemma along (h : Within t c) (hP : ∀ c, Within t c → ∀ call, P c call) (calls : List Call) :
    c.Along P calls := by
  induction calls generalizing c with
  | nil => trivial
  | cons call calls ih => exact ⟨hP c h call, ih (h.perform call)⟩

/-- What is the same for every cursor that is not behind the text is the same all through a row of
calls. -/
lemma along_congr (h : Within t c) (hPQ : ∀ c, Within t c → ∀ call, P c call ↔ Q c call)
    (calls : List Call) : c.Along P calls ↔ c.Along Q calls := by
  induction calls generalizing c with
  | nil => rfl
  | cons call calls ih => exact and_congr (hPQ c h call) (ih (h.perform call))

end Within

/-- All calls of a row are coherent exactly if none of them reads on in front of the text.  To read
on there gives the character that stands as far in front of the end, although none is seen, or it
fails, if the text is too short for that. -/
theorem along_coherent_iff (t : Text) (calls : List Call) :
    ((ofText t).Along Coherent calls ↔
      (ofText t).Along (fun c call => call = .next → 0 ≤ c.pos) calls) ∧
    (ofText t).Along (fun c _ => c.pos < 0 → c.peek = .ok none ∧
      c.next = match t.at? (c.pos + t.length) with
        | some ch => (.ok (some ch), c.forth)
        | none => (.error .outOfRange, c)) calls := by
  have hstart := within_ofText t
  constructor
  · exact hstart.along_congr (fun c hc call => hc.coherent_iff call) calls
  · refine hstart.along (fun c hc _ hneg => ⟨?_, hc.next_of_neg hneg⟩) calls
    rw [hc.peek_eq, Text.at?_eq_none (.inl hneg)]

/-- One place in front of `a` nothing is seen, and yet reading on gives the letter; two places in
front of it, reading on fails. -/
theorem not_along_coherent_in_front :
    ¬ (ofText ['a']).Along Coherent [.backUp 1, .next] ∧
      ((ofText ['a']).after [.backUp 1]).peek = .ok none ∧
      ((ofText ['a']).after [.backUp 1]).next.1 = .ok (some 'a') ∧
      ((ofText ['a']).after [.backUp 2]).next.1 = .error .outOfRange := by
  refine ⟨?_, rfl, rfl, rfl⟩
  rintro ⟨-, ⟨ch, hpeek, hnext⟩, -⟩
  obtain rfl := Except.ok.inj hpeek
  cases hnext

end Cursor

end Reckoner
