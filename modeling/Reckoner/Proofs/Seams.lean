import Reckoner.Proofs.Lexing
import Reckoner.Proofs.LongestNumerals

/-!
# Two texts one behind the other

The lexemes of two texts, one behind the other, are those of the first and then those of the
second, unless a numeral goes on across the seam (`Lexeme.split_append`).  It can do so only where a
digit or a point stands on both sides (`Numeral.reach_append`).

From the left, whatever comes behind a text leaves its lexemes as they are, but for a numeral at its
very end, which may become longer (`Lexeme.split_forward_append`).  A point at the end is the only
exception: with a digit behind it, it is no longer a foreign character.

Both rest on the fact that what is read is the longest numeral.  A numeral that stays in front of
the seam is one of the first text alone, and from a numeral that goes across it the part in front of
the seam can be cut off (`Numeral.IsNumeral.of_append`).
-/

namespace Reckoner

namespace Numeral

variable {dir : Direction} {cs ds v w : Text}

/-- No numeral goes on from the end of one text to the beginning of the other: a digit or a point
does not stand on both sides. -/
def IsSeam (cs ds : Text) : Prop := ∀ a ∈ cs.getLast?, ∀ b ∈ ds.head?, isPart a → isPart b = false

/-- More text makes no numeral shorter. -/
lemma reach_le_reach_append (dir : Direction) (cs ds : Text) :
    reach dir cs ≤ reach dir (cs ++ ds) := by
  by_cases hnone : reach dir cs = 0
  · rw [hnone]
    exact Nat.zero_le _
  · have hlongest := isLongest_take_reach hnone
    have hstands := hlongest.standing.trans (List.prefix_append cs ds)
    rw [← length_written_take_reach dir cs]
    exact length_le_reach hlongest.isNumeral hstands

/-- A numeral that stays in front of the seam is the one of the first text alone. -/
lemma reach_append_of_le (h : reach dir (cs ++ ds) ≤ cs.length) :
    reach dir (cs ++ ds) = reach dir cs := by
  refine Nat.le_antisymm ?_ (reach_le_reach_append dir cs ds)
  by_cases hnone : reach dir (cs ++ ds) = 0
  · rw [hnone]
    exact Nat.zero_le _
  · have hstands : Lexeme.written dir (Lexeme.written dir
        ((cs ++ ds).take (reach dir (cs ++ ds)))) <+: cs := by
      rw [Lexeme.written_written, List.take_append_of_le_length h]
      exact List.take_prefix _ cs
    conv_lhs => rw [← length_written_take_reach dir (cs ++ ds)]
    exact length_le_reach (isNumeral_take_reach dir hnone) hstands

/-- A numeral that goes across the seam is the whole first text and a part of the second. -/
lemma exists_of_length_lt_reach (h : cs.length < reach dir (cs ++ ds)) :
    ∃ d rest more, ds = d :: rest ∧ IsNumeral (Lexeme.written dir (cs ++ d :: more)) := by
  have hnumeral : IsNumeral _ := isNumeral_take_reach dir (Nat.ne_zero_of_lt h)
  have hinside := reach_le_length dir (cs ++ ds)
  obtain ⟨n, hn⟩ := Nat.exists_eq_add_of_lt h
  rw [hn, List.length_append] at hinside
  cases ds with
  | nil => simp only [List.length_nil] at hinside; omega
  | cons d rest =>
    rw [hn, Nat.add_assoc, List.take_length_add_append, List.take_succ_cons] at hnumeral
    exact ⟨d, rest, _, rfl, hnumeral⟩

/-- Across a seam, what is read of a text is what is read of it alone. -/
theorem reach_append (hne : cs ≠ []) (h : IsSeam cs ds) : reach dir (cs ++ ds) = reach dir cs := by
  refine reach_append_of_le (Nat.le_of_not_lt fun hacross => ?_)
  obtain ⟨d, _, more, rfl, hnumeral⟩ := exists_of_length_lt_reach hacross
  have hwritten : ∀ t : Text, ∀ c ∈ t, c ∈ Lexeme.written dir t := by
    intro t c hc
    cases dir <;> simpa [Lexeme.written] using hc
  have hpart : ∀ c ∈ cs ++ d :: more, isPart c := fun c hc => hnumeral.isPart c (hwritten _ c hc)
  have hend : isPart (cs.getLast hne) := hpart _ (List.mem_append_left _ (List.getLast_mem hne))
  have hbegin : isPart d = false := h _ (List.getLast?_eq_some_getLast hne) d rfl hend
  rw [hpart d (by simp)] at hbegin
  cases hbegin

/-- The beginning of a numeral is a numeral too, unless it is empty or ends with the point. -/
lemma IsNumeral.of_append (hw : IsNumeral (cs ++ ds)) (hne : cs ≠ [])
    (hlast : cs.getLast? ≠ some '.') : IsNumeral cs := by
  generalize hwhole : cs ++ ds = w at hw
  cases hw with
  | whole _ hdigits =>
    subst hwhole
    exact .whole hne fun c hc => hdigits c (List.mem_append_left ds hc)
  | @point xs ps hxs _ hps =>
    rcases List.append_eq_append_iff.mp hwhole with ⟨ys, rfl, -⟩ | ⟨ys, rfl, hys⟩
    · exact .whole hne fun c hc => hxs c (List.mem_append_left ys hc)
    · cases ys with
      | nil =>
        rw [List.append_nil] at hne ⊢
        exact .whole hne hxs
      | cons y ys =>
        obtain ⟨rfl, rfl⟩ := List.cons.inj hys
        have hsome : ys ≠ [] := by
          rintro rfl
          exact hlast List.getLast?_concat
        exact .point hxs hsome fun c hc => hps c (List.mem_append_left ds hc)

/-- From the left, what is read of a text is the same in front of any other text, or it is the whole
text, which does not end with a point. -/
theorem reach_forward_append (hne : cs ≠ []) (hlast : cs.getLast? ≠ some '.') (ds : Text) :
    reach .forward (cs ++ ds) = reach .forward cs ∨ reach .forward cs = cs.length := by
  by_cases hle : reach .forward (cs ++ ds) ≤ cs.length
  · exact .inl (reach_append_of_le hle)
  · obtain ⟨d, _, more, -, hnumeral⟩ := exists_of_length_lt_reach (Nat.lt_of_not_le hle)
    have hwhole : IsNumeral cs := IsNumeral.of_append hnumeral hne hlast
    have hlongest : cs.length ≤ reach .forward cs := length_le_reach hwhole List.prefix_rfl
    exact .inr (Nat.le_antisymm (reach_le_length .forward cs) hlongest)

end Numeral

namespace Lexeme

variable {dir : Direction} {s t : Text}

/-- What holds of the last character of a text holds of it without its first character. -/
lemma forall_getLast?_of_cons {P : Char → Prop} {c : Char} {cs : Text}
    (h : ∀ a ∈ (c :: cs).getLast?, P a) : ∀ a ∈ cs.getLast?, P a := by
  intro a ha
  refine h a ?_
  cases cs with
  | nil => cases ha
  | cons d cs => rwa [List.getLast?_cons_cons]

/-- Where a numeral is read at the beginning of a text, it is split off. -/
lemma splitFrom_cons_of_reach {c : Char} {cs : Text} {n : Nat}
    (h : Numeral.reach dir (c :: cs) = n + 1) :
    splitFrom dir 0 (c :: cs) =
      numeral (written dir ((c :: cs).take (n + 1))) :: splitFrom dir n cs := by
  rw [splitFrom, h]

/-- Where the same is read at the beginning of a text with and without another one behind it, the
same lexeme is split off, and it stays inside the text. -/
lemma exists_splitFrom_cons {c : Char} {cs : Text}
    (h : Numeral.reach dir (c :: cs ++ t) = Numeral.reach dir (c :: cs)) :
    ∃ l skip, skip ≤ cs.length ∧ splitFrom dir 0 (c :: cs) = l :: splitFrom dir skip cs ∧
      splitFrom dir 0 (c :: cs ++ t) = l :: splitFrom dir skip (cs ++ t) := by
  have hinside := Numeral.reach_le_length dir (c :: cs)
  cases hn : Numeral.reach dir (c :: cs) with
  | zero =>
    rw [hn] at h
    refine ⟨ofChar c, 0, Nat.zero_le _, ?_, ?_⟩
    · rw [splitFrom, hn]
    · rw [List.cons_append] at h ⊢
      rw [splitFrom, h]
  | succ n =>
    rw [hn] at h hinside
    have htake : (c :: cs ++ t).take (n + 1) = (c :: cs).take (n + 1) :=
      List.take_append_of_le_length hinside
    refine ⟨_, n, Nat.le_of_succ_le_succ hinside, splitFrom_cons_of_reach hn, ?_⟩
    rw [← htake]
    exact splitFrom_cons_of_reach h

/-- Across a seam, the lexemes behind the skipped characters are those of the two texts. -/
lemma splitFrom_append {skip : Nat} (hskip : skip ≤ s.length) (h : Numeral.IsSeam s t) :
    splitFrom dir skip (s ++ t) = splitFrom dir skip s ++ split dir t := by
  induction s generalizing skip with
  | nil =>
    obtain rfl := Nat.le_zero.mp hskip
    rfl
  | cons c cs ih =>
    have htail : Numeral.IsSeam cs t := forall_getLast?_of_cons h
    cases skip with
    | succ skip => exact ih (Nat.le_of_succ_le_succ hskip) htail
    | zero =>
      have hreach : Numeral.reach dir (c :: cs ++ t) = Numeral.reach dir (c :: cs) :=
        Numeral.reach_append (List.cons_ne_nil c cs) h
      obtain ⟨l, skip, hinside, halone, hbefore⟩ := exists_splitFrom_cons hreach
      rw [halone, hbefore, ih hinside htail, List.cons_append]

/-- Across a seam, the lexemes of a text are those of its two parts. -/
theorem split_append (h : Numeral.IsSeam s t) : split dir (s ++ t) = split dir s ++ split dir t :=
  splitFrom_append (Nat.zero_le _) h

/-- From the left, a text that does not end with a point has the lexemes behind the skipped
characters in front of any other text, but for a numeral at its end, which may become longer. -/
lemma splitFrom_forward_append {skip : Nat} (hskip : skip ≤ s.length)
    (hlast : ∀ a ∈ s.getLast?, a ≠ '.') (t : Text) :
    (∃ more, splitFrom .forward skip (s ++ t) = splitFrom .forward skip s ++ more) ∨
      ∃ row v w more, splitFrom .forward skip s = row ++ [numeral v] ∧
        splitFrom .forward skip (s ++ t) = row ++ numeral w :: more := by
  induction s generalizing skip with
  | nil =>
    obtain rfl := Nat.le_zero.mp hskip
    exact .inl ⟨split .forward t, rfl⟩
  | cons c cs ih =>
    have htail : ∀ a ∈ cs.getLast?, a ≠ '.' := forall_getLast?_of_cons hlast
    have hpoint : (c :: cs).getLast? ≠ some '.' := fun h => hlast '.' h rfl
    cases skip with
    | succ skip => exact ih (Nat.le_of_succ_le_succ hskip) htail
    | zero =>
      rcases Numeral.reach_forward_append (List.cons_ne_nil c cs) hpoint t with hsame | hwhole
      · obtain ⟨l, skip, hinside, halone, hbefore⟩ := exists_splitFrom_cons hsame
        rw [halone, hbefore]
        rcases ih hinside htail with ⟨more, hmore⟩ | ⟨row, v, w, more, hv, hw⟩
        · exact .inl ⟨more, congrArg (l :: ·) hmore⟩
        · exact .inr ⟨l :: row, v, w, more, congrArg (l :: ·) hv, congrArg (l :: ·) hw⟩
      · -- The text is one numeral, and with more text behind it there is still one.
        have hlonger := Numeral.reach_le_reach_append .forward (c :: cs) t
        rw [hwhole] at hlonger
        obtain ⟨n, hn⟩ := Nat.exists_eq_add_of_le' (Nat.one_le_of_lt hlonger)
        have hnothing : splitFrom .forward cs.length cs = [] := by
          rw [splitFrom_eq_split_drop, List.drop_length]
          rfl
        have halone := splitFrom_cons_of_reach hwhole
        rw [hnothing] at halone
        exact .inr ⟨[], _, _, _, halone, splitFrom_cons_of_reach hn⟩

/-- From the left, a text that does not end with a point has its lexemes in front of any other text
too, but for a numeral at its end, which may become longer. -/
theorem split_forward_append (hlast : s.getLast? ≠ some '.') (t : Text) :
    (∃ more, split .forward (s ++ t) = split .forward s ++ more) ∨
      ∃ row v w more, split .forward s = row ++ [numeral v] ∧
        split .forward (s ++ t) = row ++ numeral w :: more := by
  refine splitFrom_forward_append (Nat.zero_le _) ?_ t
  rintro a ha rfl
  exact hlast ha

end Lexeme

end Reckoner
