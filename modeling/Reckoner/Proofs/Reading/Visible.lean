import Reckoner.Proofs.Reading.Columns
import Reckoner.Proofs.Reading.Relocation

/-!
# What decides a parse

White characters are passed over, and a lexeme counts with the column where it begins.  So a parse
from the left is decided by the visible lexemes and their columns (`parse_forward_eq_foldlM`), and
if only the columns change, then only the column of the fault does (`parse_forward_of_sites`).

From the right, where a lexeme begins is known only after it has been read, and a sign looks further
left.  But it looks at visible lexemes alone: up to the column of the fault, the visible lexemes
decide the parse (`parse_backward_of_visible`).
-/

namespace Reckoner

open Lexeme

/-! ## Visible lexemes and their places -/

namespace Lexeme

/-- The visible lexemes of a row that begins at `pos`, each behind the position where it begins. -/
def sites (pos : Int) : List Lexeme → List (Int × Lexeme)
  | [] => []
  | l :: row =>
    if l.isWhite then sites (pos + l.length) row else (pos, l) :: sites (pos + l.length) row

variable {row more : List Lexeme} {l : Lexeme} {pos : Int}

lemma sites_cons_of_isWhite (hl : l.isWhite) :
    sites pos (l :: row) = sites (pos + l.length) row := by
  rw [sites, if_pos hl]

lemma sites_cons (hl : l.isWhite = false) :
    sites pos (l :: row) = (pos, l) :: sites (pos + l.length) row := by
  rw [sites, if_neg (by simp [hl])]

/-- The second of two rows begins where the first one ends. -/
theorem sites_append (pos : Int) (row more : List Lexeme) :
    sites pos (row ++ more) = sites pos row ++ sites (pos + width row) more := by
  induction row generalizing pos with
  | nil => simp [sites, width]
  | cons l row ih =>
    have hwidth : pos + width (l :: row) = pos + l.length + width row := by
      rw [width, Int.natCast_add, Int.add_assoc]
    rw [hwidth, List.cons_append]
    cases hl : l.isWhite with
    | true => rw [sites_cons_of_isWhite hl, sites_cons_of_isWhite hl, ih]
    | false => rw [sites_cons hl, sites_cons hl, ih, List.cons_append]

/-- White characters in front of a row leave nothing, and the row begins behind them. -/
lemma sites_whites_append (pos : Int) (cs : Text) (row : List Lexeme) :
    sites pos (cs.map white ++ row) = sites (pos + cs.length) row := by
  induction cs generalizing pos with
  | nil => simp
  | cons c cs ih =>
    have hlength : pos + (white c).length + cs.length = pos + (c :: cs).length := by
      rw [List.length_cons, Int.natCast_succ, Int.add_comm (cs.length : Int), ← Int.add_assoc]
      rfl
    rw [List.map_cons, List.cons_append, sites_cons_of_isWhite rfl, ih, hlength]

/-- A row that begins elsewhere has the same visible lexemes, moved by the same distance. -/
lemma sites_add (pos n : Int) (row : List Lexeme) :
    sites (pos + n) row = (sites pos row).map (Prod.map (· + n) id) := by
  induction row generalizing pos with
  | nil => rfl
  | cons l row ih =>
    have hnext : pos + n + l.length = pos + l.length + n := Int.add_right_comm pos n l.length
    cases hl : l.isWhite with
    | true => rw [sites_cons_of_isWhite hl, sites_cons_of_isWhite hl, hnext, ih]
    | false =>
      rw [sites_cons hl, sites_cons hl, hnext, ih, List.map_cons]
      rfl

/-- A visible lexeme begins inside its row. -/
lemma mem_range_of_mem_sites (hrow : HasNumerals row) {site : Int × Lexeme}
    (h : site ∈ sites pos row) : pos ≤ site.1 ∧ site.1 < pos + width row := by
  induction row generalizing pos with
  | nil => cases h
  | cons l row ih =>
    have hlength : 0 < l.length := hrow.length_pos
    have hinside (hlater : site ∈ sites (pos + l.length) row) :
        pos ≤ site.1 ∧ site.1 < pos + width (l :: row) := by
      have hlater := ih hrow.tail hlater
      simp only [width]
      omega
    cases hl : l.isWhite with
    | true => exact hinside (sites_cons_of_isWhite hl ▸ h)
    | false =>
      rw [sites_cons hl] at h
      rcases List.mem_cons.mp h with rfl | hlater
      · simp only [width]
        omega
      · exact hinside hlater

end Lexeme

namespace Progress

variable {step : Int} {p q : Progress} {ss : List (Int × Lexeme)}

/-! ## From the left -/

/-- The reader after a visible lexeme at a column, with that column. -/
def readSite (step : Int) (latest : Progress × Int) (site : Int × Lexeme) :
    Except Fault (Progress × Int) := do
  let q ← latest.1.readForward step site.1 site.2
  return (q, site.1)

/-- The tokens of a reader at the end of its text, with the column of its latest lexeme. -/
def conclude (latest : Progress × Int) : Except Fault (List Token) :=
  latest.1.finish latest.1.tokens.reverse latest.2

/-- From the left, a pass reads the visible lexemes where they begin. -/
lemma pass_forward_eq_foldlM (start pos : Int) (row : List Lexeme) :
    (do let q ← (Pass.forward step p start pos row).progress
        conclude (q, (Pass.forward step p start pos row).start)) =
      (sites pos row).foldlM (readSite step) (p, start) >>= conclude := by
  induction row generalizing p start pos with
  | nil => rfl
  | cons l row ih =>
    cases hl : l.isWhite with
    | true =>
      obtain ⟨c, rfl⟩ := exists_eq_white hl
      exact ih start _
    | false =>
      rw [sites_cons hl, List.foldlM_cons]
      unfold Pass.forward readSite
      cases p.readForward step pos l with
      | error f => rfl
      | ok q =>
        simp only [hl, Bool.false_eq_true, if_false]
        exact ih pos _

/-- Where nothing has been read, there is no latest lexeme. -/
lemma foldlM_start (column column' : Int) :
    ss.foldlM (readSite step) (.start .forward, column) >>= conclude =
      ss.foldlM (readSite step) (.start .forward, column') >>= conclude := by
  cases ss <;> rfl

/-- Where the lexemes stand elsewhere, the fault of a reader does so too. -/
lemma foldlM_relocate (g : Int → Int) (column : Int) :
    (ss.map (Prod.map g id)).foldlM (readSite step) (p, g column) >>= conclude =
      (ss.foldlM (readSite step) (p, column) >>= conclude).mapError (.relocate g) := by
  induction ss generalizing p column with
  | nil => exact finish_relocate g p.tokens.reverse
  | cons site ss ih =>
    rw [List.map_cons, List.foldlM_cons, List.foldlM_cons, readSite, readSite]
    simp only [Prod.map, id, readForward_relocate g site.2]
    cases p.readForward step site.1 site.2 with
    | error f => rfl
    | ok q => exact ih site.1

/-! ## From the right -/

/-- From the right, a lexeme is read with respect to the visible lexemes further left. -/
lemma readBackward_visible (column : Int) (left : List Lexeme) (l : Lexeme) :
    p.readBackward step column (visible left) l = p.readBackward step column left l := by
  cases l with
  | white | foreign | numeral => rfl
  | symbol op => cases op <;> simp only [readBackward, admitSign_visible]

/-- From the right, the visible lexemes of a row decide a pass, up to the column of its fault. -/
lemma pass_backward_visible (start pos start' pos' : Int) (row : List Lexeme) :
    (Pass.backward step p start pos row).progress.mapError Fault.unplaced =
      (Pass.backward step p start' pos' (visible row)).progress.mapError Fault.unplaced := by
  induction row generalizing p start pos start' pos' with
  | nil => rfl
  | cons l row ih =>
    cases hl : l.isWhite with
    | true =>
      obtain ⟨c, rfl⟩ := exists_eq_white hl
      exact ih _ _ start' pos'
    | false =>
      have hread (column column' : Int) :
          (p.readBackward step column row l).mapError Fault.unplaced =
            (p.readBackward step column' (visible row) l).mapError Fault.unplaced := by
        rw [readBackward_visible, Fault.unplaced, ← readBackward_relocate,
          ← readBackward_relocate]
      have hsame := hread (pos - l.length) (pos' - l.length)
      rw [visible_cons hl]
      simp only [Pass.backward]
      generalize p.readBackward step (pos - l.length) row l = x at hsame ⊢
      generalize p.readBackward step (pos' - l.length) (visible row) l = y at hsame ⊢
      -- Both readers have found a fault, have stopped, or go on from the same state.
      rcases x with f | _ | q <;> rcases y with f' | _ | q' <;> try cases hsame
      · exact congrArg Except.error (Except.error.inj hsame)
      · rfl
      · exact ih _ _ _ _

end Progress

open Progress

variable {t u : Text}

/-! ## Texts -/

/-- From the left, a parse is decided by the visible lexemes and where they begin. -/
theorem parse_forward_eq_foldlM (t : Text) :
    parse .forward t = (sites 0 (split .forward t)).foldlM
      (readSite Settings.standard.nestingStep) (.start .forward, 0) >>= conclude := by
  by_cases ht : t = []
  · subst ht
    rfl
  · rw [parse_forward_eq ht rfl]
    exact pass_forward_eq_foldlM 0 0 (split .forward t)

/-- From the left, a text whose visible lexemes are those of another one, each elsewhere, has the
same tokens or the same fault, elsewhere. -/
theorem parse_forward_of_sites {g : Int → Int}
    (h : sites 0 (split .forward u) = (sites 0 (split .forward t)).map (Prod.map g id)) :
    parse .forward u = (parse .forward t).mapError (.relocate g) := by
  rw [parse_forward_eq_foldlM, parse_forward_eq_foldlM, h, ← foldlM_relocate g 0]
  exact foldlM_start 0 (g 0)

/-- From the right, a text has the tokens that the reader has finished with where the pass over its
lexemes has stopped. -/
lemma parse_backward_eq_bind {pass : Pass}
    (hpass : Pass.backward Settings.standard.nestingStep (.start .backward) t.length t.length
      (split .backward t.reverse) = pass) :
    parse .backward t = pass.progress >>= fun p => p.finish p.tokens pass.pos := by
  have htake : (t.take t.length).reverse = t.reverse := by rw [List.take_length]
  exact Cursor.parse_backward_fst (Nat.le_refl _) (by rw [htake, hpass])

/-- From the right, a text whose visible lexemes are those of another one has the same tokens or the
same fault, up to its column. -/
theorem parse_backward_of_visible
    (h : visible (split .backward u.reverse) = visible (split .backward t.reverse)) :
    (parse .backward u).mapError Fault.unplaced = (parse .backward t).mapError Fault.unplaced := by
  have hfinish (pos : Int) (p : Progress) :
      (p.finish p.tokens pos).mapError Fault.unplaced = p.finish p.tokens 0 :=
    (finish_relocate (fun _ => 0) p.tokens).symm
  rw [parse_backward_eq_bind rfl, parse_backward_eq_bind rfl, mapError_bind, mapError_bind,
    pass_backward_visible _ _ 0 0, pass_backward_visible _ _ 0 0 (split .backward t.reverse), h]
  simp only [hfinish]

end Reckoner
