import Mathlib.Data.List.OfFn
import Mathlib.Logic.Equiv.Defs
import Reckoner.Proofs.Session.Recency

/-!
# A batch is evaluated row by row

Whatever a session has done before, a batch has one row for each of its texts, in their order, and
the row of a text depends on the text and the direction alone: it tells the value of the text, or
the message of the fault with which its evaluation fails (`Row.Tells`).  So texts in another order
have their rows in this order, and each text that fails is warned of once
(`Session.evaluateMany_rowwise`).

The texts of a batch are evaluated one after the other, and each of them may change the cache that
the next one finds.  But every session keeps a faithful cache (`Session.faithful_after`), in which a
text has the value that it has afresh, and the faults of texts are those that a batch survives
(`Session.freshRow_eq_ok`).
-/

namespace Reckoner

namespace Row

/-- What a row has to tell of a text, by the answer that the text has: the text, its value, or no
number where it has none, and the message of the fault, if the answer is one. -/
structure Tells (r : Row) (t : Text) (answer : Except Fault (Option Float)) : Prop where
  text_eq : r.text = t
  of_value : ∀ v, answer = .ok (some v) → r.result = v ∧ r.error = none
  of_none : answer = .ok none → r.result.isNaN ∧ r.error = none
  of_fault : ∀ f, answer = .error f → r.result.isNaN ∧ r.error = some f.message

/-- A row that tells an answer has an error exactly if the answer is a fault. -/
lemma Tells.isSome_error_iff {r : Row} {t : Text} {answer : Except Fault (Option Float)}
    (h : r.Tells t answer) : r.error.isSome ↔ ∃ f, answer = .error f := by
  rcases answer with f | _ | v
  · exact iff_of_true (by rw [(h.of_fault f rfl).2, Option.isSome_some]) ⟨f, rfl⟩
  · exact iff_of_false (by rw [(h.of_none rfl).2]; decide) nofun
  · exact iff_of_false (by rw [(h.of_value v rfl).2]; decide) nofun

/-- The warning that a row asks for, if it tells of a fault. -/
def warning? (r : Row) : Option Record :=
  r.error.map fun message =>
    ⟨.warning, "formula.evaluator",
      "Failed to evaluate '" ++ String.ofList (r.text.take 50) ++ "': " ++ message⟩

/-- The row of a text that is evaluated afresh. -/
def fresh (dir : Direction) (t : Text) : Row :=
  match freshValue dir t with
  | .ok v => .ofValue t v
  | .error f => .ofFault t f

/-- The row of a text that is evaluated afresh tells its answer. -/
theorem tells_fresh (dir : Direction) (t : Text) : (fresh dir t).Tells t (freshValue dir t) := by
  have hnan : noNumber.isNaN := by decide
  unfold fresh
  cases freshValue dir t with
  | error f =>
    refine ⟨rfl, nofun, nofun, ?_⟩
    rintro _ ⟨⟩
    exact ⟨hnan, rfl⟩
  | ok value =>
    cases value with
    | none => exact ⟨rfl, nofun, fun _ => ⟨hnan, rfl⟩, nofun⟩
    | some v =>
      refine ⟨rfl, ?_, nofun, nofun⟩
      rintro _ ⟨⟩
      exact ⟨rfl, rfl⟩

end Row

/-- The records of a journal that warn. -/
def Record.warnings (records : List Record) : List Record :=
  records.filter fun r => r.level == .warning

lemma Record.warnings_append (rs records : List Record) :
    warnings (rs ++ records) = warnings rs ++ warnings records :=
  List.filter_append _ _

/-- Records of other levels do not warn. -/
lemma Record.warnings_eq_nil {records : List Record} (h : ∀ r ∈ records, r.level ≠ .warning) :
    warnings records = [] := by
  refine List.filter_eq_nil_iff.mpr fun r hr => ?_
  simpa using h r hr

/-- An evaluation at a cursor does not warn. -/
lemma Cursor.warnings_evaluateRecords (dir : Direction) (c : Cursor) :
    Record.warnings (c.evaluateRecords dir) = [] := by
  apply Record.warnings_eq_nil
  intro r hr
  rcases List.mem_append.mp hr with hparse | hevaluate
  · simp [level_of_mem_parseRecords hparse]
  · split at hevaluate
    · split at hevaluate
      · rename_i cause _
        obtain rfl := List.mem_singleton.mp hevaluate
        cases cause <;> simp [NoValue.record]
      · exact absurd hevaluate List.not_mem_nil
    · exact absurd hevaluate List.not_mem_nil

namespace Session

variable {s : Session}

/-- The fault of a text is one of the expression. -/
lemma isOfExpression_of_freshValue {dir : Direction} {t : Text} {f : Fault}
    (h : freshValue dir t = .error f) : f.isOfExpression := by
  rw [← evaluateText_eq] at h
  exact isOfExpression_of_evaluateText h

/-- Every text has a row. -/
lemma freshRow_eq_ok (dir : Direction) (t : Text) : freshRow dir t = .ok (.fresh dir t) := by
  unfold freshRow Row.fresh
  cases hvalue : freshValue dir t with
  | ok v => rfl
  | error f => simp only [isOfExpression_of_freshValue hvalue, if_true]

/-- The rows of a batch. -/
lemma mapM_freshRow (dir : Direction) (ts : List Text) :
    ts.mapM (freshRow dir) = .ok (ts.map (Row.fresh dir)) := by
  have hrow : freshRow dir = fun t => pure (Row.fresh dir t) :=
    funext fun t => freshRow_eq_ok dir t
  rw [hrow, List.mapM_pure]
  rfl

/-- No operation makes a cache unfaithful. -/
lemma faithful_after (hs : s.cache.Faithful) (ops : List Operation) :
    (s.after ops).cache.Faithful := by
  induction ops generalizing s with
  | nil => exact hs
  | cons op ops ih => exact ih (perform_step hs op).2

/-- After any row of operations the cache is faithful. -/
lemma faithful_start_after (limit : Option Int) (ops : List Operation) :
    ((start limit).after ops).cache.Faithful := by
  have hstart : (start limit).cache.Faithful := List.forall_mem_nil _
  exact faithful_after hstart ops

/-- The evaluation of a text does not warn. -/
lemma warnings_evaluate (s : Session) (dir : Direction) (t : Text) :
    Record.warnings (s.evaluate dir t).records = [] := by
  have hmissed := (Cursor.whole t dir).warnings_evaluateRecords dir
  simp only [evaluate, remember_eq_ok]
  cases s.cache.find? ⟨t, dir⟩ with
  | some v => rfl
  | none => cases evaluateText dir t <;> exact hmissed

/-- A batch warns of the rows that tell of a fault, and of each of them once. -/
theorem warnings_evaluateMany (hs : s.cache.Faithful) (dir : Direction) (ts : List Text) :
    Record.warnings (s.evaluateMany dir ts).records =
      (ts.map (Row.fresh dir)).filterMap Row.warning? := by
  induction ts generalizing s with
  | nil => rfl
  | cons t ts ih =>
    obtain ⟨hresult, hs'⟩ := evaluate_step hs dir t
    have hquiet := s.warnings_evaluate dir t
    have hrest := ih hs'
    rw [List.map_cons, List.filterMap_cons, Row.fresh]
    simp only [evaluateMany, hresult]
    cases hvalue : freshValue dir t with
    | ok v =>
      have hnone : (Row.ofValue t v).warning? = none := rfl
      simp only [Record.warnings_append, List.append_nil, hquiet, hrest, hnone, List.nil_append]
    | error f =>
      have hsome : (Row.ofFault t f).warning? = some (failure t f) := rfl
      have hwarns : Record.warnings [failure t f] = [failure t f] := rfl
      simp only [isOfExpression_of_freshValue hvalue, if_true, Record.warnings_append, hquiet,
        hwarns, hrest, hsome, List.nil_append, List.singleton_append]

/-- After any row of operations and under any limit, a batch has one row for each of its texts, in
their order.  The row of a text is the same in all batches of a direction, and it tells the answer
that the text has afresh.  Texts in another order have their rows in this order, after any other row
of operations, too.  There is one warning for each row that tells of a fault, in the order of the
rows. -/
theorem evaluateMany_rowwise (dir : Direction) :
    ∃ row : Text → Row, (∀ t, (row t).Tells t (freshValue dir t)) ∧
      ∀ (limit : Option Int) (ops : List Operation) (ts : List Text),
        (((start limit).after ops).evaluateMany dir ts).result = .ok (ts.map row) ∧
        (∀ (σ : Equiv.Perm (Fin ts.length)) (limit' : Option Int) (ops' : List Operation),
          (((start limit').after ops').evaluateMany dir (List.ofFn (ts.get ∘ σ))).result =
            .ok (List.ofFn (row ∘ ts.get ∘ σ))) ∧
        Record.warnings (((start limit).after ops).evaluateMany dir ts).records =
          (ts.map row).filterMap Row.warning? := by
  have hrows : ∀ limit ops ts, (((start limit).after ops).evaluateMany dir ts).result =
      .ok (ts.map (Row.fresh dir)) := by
    intro limit ops ts
    rw [(evaluateMany_step (faithful_start_after limit ops) dir ts).1, mapM_freshRow]
  refine ⟨Row.fresh dir, Row.tells_fresh dir, fun limit ops ts => ?_⟩
  refine ⟨hrows limit ops ts, ?order, ?warnings⟩
  case order =>
    intro σ limit' ops'
    rw [hrows, List.map_ofFn]
  case warnings => exact warnings_evaluateMany (faithful_start_after limit ops) dir ts

/-- The sum is evaluated for its first row and found in the cache for its last one, which tells the
same; the letter and the empty group fail in between, and the empty text has no value. -/
theorem evaluateMany_rowwise_sum_twice :
    let step := ((start (some 2)).after [.evaluate .forward ['7']]).evaluateMany .forward
      [['1', '+', '2'], ['x'], [], ['(', ')'], ['1', '+', '2']]
    ∃ sum letter blank group : Row, step.result = .ok [sum, letter, blank, group, sum] ∧
      sum.text = ['1', '+', '2'] ∧ sum.result = 3 ∧ sum.error = none ∧
      letter.text = ['x'] ∧ letter.result.isNaN ∧
      letter.error = some "Unknown character at column 0 of expression" ∧
      blank.text = [] ∧ blank.result.isNaN ∧ blank.error = none ∧
      group.text = ['(', ')'] ∧ group.result.isNaN ∧ group.error = some "Invalid expression" ∧
      (Record.warnings step.records).map (·.message) =
        ["Failed to evaluate 'x': Unknown character at column 0 of expression",
          "Failed to evaluate '()': Invalid expression"] ∧
      step.session.hits = 1 := by
  intro step
  obtain ⟨row, htells, hall⟩ := evaluateMany_rowwise .forward
  obtain ⟨hresult, -, hwarnings⟩ := hall (some 2) [.evaluate .forward ['7']]
    [['1', '+', '2'], ['x'], [], ['(', ')'], ['1', '+', '2']]
  have hthree : Numeral.value ['1'] + Numeral.value ['2'] = 3 := by decide +kernel
  have hvalue : freshValue .forward ['1', '+', '2'] = .ok (some 3) := hthree ▸ rfl
  obtain ⟨hsum, hsumError⟩ := (htells _).of_value 3 hvalue
  obtain ⟨hletter, hletterError⟩ := (htells ['x']).of_fault _ rfl
  obtain ⟨hblank, hblankError⟩ := (htells []).of_none rfl
  obtain ⟨hgroup, hgroupError⟩ := (htells ['(', ')']).of_fault _ rfl
  refine ⟨row _, row _, row _, row _, hresult, (htells _).text_eq, hsum, hsumError,
    (htells _).text_eq, hletter, hletterError, (htells _).text_eq, hblank, hblankError,
    (htells _).text_eq, hgroup, hgroupError, ?warnings, by decide +kernel⟩
  have hrecords : Record.warnings step.records = _ := hwarnings
  simp only [hrecords, List.map_cons, List.map_nil, List.filterMap_cons, List.filterMap_nil,
    Row.warning?, hsumError, hletterError, hblankError, hgroupError, (htells _).text_eq,
    Option.map_some, Option.map_none]
  rfl

end Session

end Reckoner
