import Reckoner.CommandLine.Program
import Reckoner.Proofs.Reparsing
import Reckoner.Proofs.Session.Rows

/-!
# The program's two ways to go through a list

The program lists the tokens of expressions, or it shows a table of their values.  Either way every
text is gone through, since a text fails with a fault of the expression alone (`reportTokens_eq`,
`reportTable_eq`).  What has been parsed has a value unless there is an empty group in it
(`exists_fault_iff`), so the exit codes of the two ways differ by empty groups alone
(`report_ways`).
-/

namespace Reckoner

/-- The text is no expression. -/
def IsMalformed (dir : Direction) (t : Text) : Prop := ∃ f, parse dir t = .error f

/-- The text is an expression with an empty group in it. -/
def HasEmptyGroup (dir : Direction) (t : Text) : Prop :=
  ∃ ts, parse dir t = .ok ts ∧ Token.emptyGroup ∈ ts

variable {dir : Direction} {t : Text}

/-! ## Texts without a value -/

/-- What is parsed has a value, or none without being an error, unless there is an empty group in
it. -/
lemma freshValue_of_parse {ts : List Token} (h : parse dir t = .ok ts) :
    (Token.emptyGroup ∉ ts → ∃ v, freshValue dir t = .ok v) ∧
      (Token.emptyGroup ∈ ts → ∃ f, freshValue dir t = .error f) := by
  have hfresh : freshValue dir t = (evaluate ts).mapError .valueless := by
    rw [freshValue, h]
    rfl
  by_cases hne : ts = []
  · subst hne
    exact ⟨fun _ => ⟨none, hfresh⟩, fun hempty => absurd hempty List.not_mem_nil⟩
  obtain ⟨htally, hall⟩ := Cursor.tally_of_parse h hne
  obtain ⟨hvalue, hstop⟩ := evaluate_of_tally hne htally fun k hk => (hall k hk).1
  constructor
  · intro hnone
    obtain ⟨v, hv⟩ := hvalue hnone
    exact ⟨some v, by rw [hfresh, hv, Except.mapError]⟩
  · intro hempty
    exact ⟨_, by rw [hfresh, hstop hempty, Except.mapError]⟩

/-- The evaluation of a text fails if the text is no expression or has an empty group in it. -/
theorem exists_fault_iff :
    (∃ f, freshValue dir t = .error f) ↔ IsMalformed dir t ∨ HasEmptyGroup dir t := by
  cases hparse : parse dir t with
  | error f =>
    refine iff_of_true ⟨f, ?_⟩ (.inl ⟨f, hparse⟩)
    rw [freshValue, hparse]
    rfl
  | ok ts =>
    obtain ⟨hvalue, hstop⟩ := freshValue_of_parse hparse
    constructor
    · rintro ⟨f, hf⟩
      refine .inr ⟨ts, hparse, ?_⟩
      by_contra hnone
      obtain ⟨v, hv⟩ := hvalue hnone
      rw [hf] at hv
      cases hv
    · rintro (⟨f, hf⟩ | ⟨us, hus, hempty⟩)
      · rw [hparse] at hf
        cases hf
      · obtain rfl := Except.ok.inj (hparse.symm.trans hus)
        exact hstop hempty

/-! ## Journals -/

/-- The records of a journal that are errors. -/
def Record.errors (records : List Record) : List Record :=
  records.filter fun r => r.level == .error

/-- What the journal keeps of a parse is no error. -/
lemma Cursor.errors_parseRecords_append (dir : Direction) (outcome : Outcome (List Token))
    (records : List Record) :
    Record.errors (parseRecords dir outcome ++ records) = Record.errors records := by
  have hquiet : (parseRecords dir outcome).filter (fun r => r.level == .error) = [] := by
    refine List.filter_eq_nil_iff.mpr fun r hr => ?_
    simp [level_of_mem_parseRecords hr]
  rw [Record.errors, List.filter_append, hquiet, List.nil_append, Record.errors]

namespace CommandLine

/-! ## Lists of tokens -/

/-- The line of a text in a list of tokens, if it is an expression. -/
def tokenLine? (dir : Direction) (t : Text) : Option String :=
  match parse dir t with
  | .ok ts => some (String.ofList t ++ ": " ++
      " ".intercalate (ts.map fun token => String.ofList token.label) ++ "\n")
  | .error _ => none

/-- What the program complains of a text, if it is no expression. -/
def complaint? (dir : Direction) (t : Text) : Option Record :=
  match parse dir t with
  | .ok _ => none
  | .error f => some ⟨.error, speaker, String.ofList t ++ ": " ++ f.message⟩

/-- The exit code is one if one of the texts is such, and zero otherwise. -/
def Flags (code : Nat) (P : Text → Prop) (ts : List Text) : Prop :=
  code = 1 ∧ (∃ t ∈ ts, P t) ∨ code = 0 ∧ ∀ t ∈ ts, ¬ P t

lemma Flags.eq_one_iff {code : Nat} {P : Text → Prop} {ts : List Text} (h : Flags code P ts) :
    code = 1 ↔ ∃ t ∈ ts, P t := by
  rcases h with ⟨rfl, hsome⟩ | ⟨rfl, hnone⟩
  · exact iff_of_true rfl hsome
  · refine iff_of_false Nat.zero_ne_one ?_
    rintro ⟨t, ht, hP⟩
    exact hnone t ht hP

lemma Flags.eq_zero {code : Nat} {P : Text → Prop} {ts : List Text} (h : Flags code P ts)
    (hone : code ≠ 1) : code = 0 := by
  rcases h with ⟨rfl, -⟩ | ⟨rfl, -⟩
  · exact absurd rfl hone
  · rfl

/-- A list of tokens has a line for each expression and a complaint of each other text, in the order
of the texts, and its exit code tells whether there are any of the latter. -/
theorem reportTokens_eq (dir : Direction) (ts : List Text) :
    ∃ r, reportTokens dir ts = .ok r ∧ Flags r.code (IsMalformed dir) ts ∧
      r.output = String.join (ts.filterMap (tokenLine? dir)) ∧
      Record.errors r.records = ts.filterMap (complaint? dir) := by
  induction ts with
  | nil => exact ⟨_, rfl, .inr ⟨rfl, List.forall_mem_nil _⟩, rfl, rfl⟩
  | cons t ts ih =>
    obtain ⟨rest, hrest, hcode, houtput, herrors⟩ := ih
    have hparse : ((Cursor.whole t dir).parse dir).1 = parse dir t := rfl
    rw [reportTokens, List.filterMap_cons, List.filterMap_cons, tokenLine?, complaint?]
    simp only [hparse, hrest]
    cases hresult : parse dir t with
    | ok tokens =>
      have hfine : ¬ IsMalformed dir t := by
        rintro ⟨f, hf⟩
        rw [hresult] at hf
        cases hf
      refine ⟨_, rfl, ?code, ?output, ?errors⟩
      case code => simpa [Flags, hfine] using hcode
      case output => rw [String.join_cons, houtput]
      case errors => exact (Cursor.errors_parseRecords_append _ _ _).trans herrors
    | error f =>
      have hmalformed : IsMalformed dir t := ⟨f, hresult⟩
      obtain ⟨_, ⟨_, rfl⟩, -⟩ := showsIn_of_parse f hresult
      refine ⟨_, rfl, ?code, houtput, ?errors⟩
      case code => exact .inl ⟨rfl, t, List.mem_cons_self, hmalformed⟩
      case errors =>
        refine (Cursor.errors_parseRecords_append _ _ _).trans ?_
        rw [← herrors]
        rfl

/-! ## Tables -/

/-- The row of a text has an error if the evaluation of the text fails. -/
lemma isSome_error_fresh : (Row.fresh dir t).error.isSome ↔ ∃ f, freshValue dir t = .error f :=
  (Row.tells_fresh dir t).isSome_error_iff

/-- A table has a row for every text, and its exit code tells whether the evaluation of one of them
fails. -/
theorem reportTable_eq (dir : Direction) (ts : List Text) :
    ∃ r, reportTable dir ts = .ok r ∧
      Flags r.code (fun t => ∃ f, freshValue dir t = .error f) ts := by
  have hempty : (Session.start none).cache.Faithful := List.forall_mem_nil _
  have hrows := (Session.evaluateMany_step hempty dir ts).1
  rw [Session.mapM_freshRow] at hrows
  refine ⟨_, by rw [reportTable, hrows]; rfl, ?_⟩
  have hnone : (ts.map (Row.fresh dir)).countP (·.error.isSome) = 0 ↔
      ∀ t ∈ ts, ¬ ∃ f, freshValue dir t = .error f := by
    simp only [List.countP_eq_zero, List.forall_mem_map, isSome_error_fresh]
  by_cases hfine : ∀ t ∈ ts, ¬ ∃ f, freshValue dir t = .error f
  · exact .inr ⟨if_pos (hnone.mpr hfine), hfine⟩
  · refine .inl ⟨if_neg (mt hnone.mp hfine), ?_⟩
    by_contra hall
    exact hfine fun t ht hf => hall ⟨t, ht, hf⟩

/-! ## Both -/

/-- Without a position to look at and with at least one text, the program has a table of the values
of the texts as well as a list of their tokens.  The exit code of the table is one exactly if that
of the list is or there is an empty group in one of the expressions that are listed, and else both
are zero.  The exit code of the list is one if one of the texts is no expression, and the list has
one line for each expression, in the order of the texts, and one complaint of each other text. -/
theorem report_ways {o : Options} {fromFile : List Text} (hextract : o.extract = .untouched)
    (hne : o.expressions ++ fromFile ≠ []) :
    ∃ table list, report { o with tokens := false } fromFile = .ok table ∧
      report { o with tokens := true } fromFile = .ok list ∧
      (table.code = 1 ↔
        list.code = 1 ∨ ∃ t ∈ o.expressions ++ fromFile, HasEmptyGroup o.direction t) ∧
      (table.code ≠ 1 → table.code = 0 ∧ list.code = 0) ∧
      Flags list.code (IsMalformed o.direction) (o.expressions ++ fromFile) ∧
      list.output = String.join ((o.expressions ++ fromFile).filterMap (tokenLine? o.direction)) ∧
      Record.errors list.records =
        (o.expressions ++ fromFile).filterMap (complaint? o.direction) := by
  obtain ⟨t, ts, hts⟩ := List.exists_cons_of_ne_nil hne
  obtain ⟨table, htable, hvalues⟩ := reportTable_eq o.direction (t :: ts)
  obtain ⟨list, hlist, hparses, houtput, herrors⟩ := reportTokens_eq o.direction (t :: ts)
  have hcodes : table.code = 1 ↔ list.code = 1 ∨ ∃ t' ∈ t :: ts, HasEmptyGroup o.direction t' := by
    rw [hvalues.eq_one_iff, hparses.eq_one_iff]
    simp only [exists_fault_iff, and_or_left, exists_or]
  have hzero : table.code ≠ 1 → table.code = 0 ∧ list.code = 0 := fun hone =>
    ⟨hvalues.eq_zero hone, hparses.eq_zero fun hlisted => hone (hcodes.mpr (.inl hlisted))⟩
  rw [hts]
  refine ⟨table, list, ?table, ?list, hcodes, hzero, hparses, houtput, herrors⟩
  case table =>
    simp only [report, hts, hextract]
    exact congrArg (Except.mapError Breakdown.fault) htable
  case list =>
    simp only [report, hts, hextract]
    exact congrArg (Except.mapError Breakdown.fault) hlist

/-- Of an empty group and a number, both are listed and the exit code is zero, while in the table
the empty group makes it one. -/
theorem report_ways_empty_group :
    ∃ table list,
      report ⟨[['(', ')']], none, false, .untouched, false, .untouched⟩ [['1']] = .ok table ∧
      report ⟨[['(', ')']], none, false, .untouched, true, .untouched⟩ [['1']] = .ok list ∧
      table.code = 1 ∧ list.code = 0 ∧ list.output = "(): () [0]\n1: 1 [0]\n" ∧
      Record.errors list.records = [] := by
  let o : Options := ⟨[['(', ')']], none, false, .untouched, false, .untouched⟩
  have hne : o.expressions ++ [['1']] ≠ [] := List.cons_ne_nil _ _
  obtain ⟨table, list, htable, hlist, hcodes, -, hparses, houtput, herrors⟩ := report_ways rfl hne
  have hempty : HasEmptyGroup .forward ['(', ')'] := ⟨_, rfl, List.mem_singleton_self _⟩
  have hcode : list.code ≠ 1 := by
    rw [Ne, hparses.eq_one_iff]
    rintro ⟨t, ht, f, hf⟩
    rcases List.mem_cons.mp ht with rfl | hlast
    · cases hf
    · obtain rfl := List.mem_singleton.mp hlast
      cases hf
  exact ⟨table, list, htable, hlist, hcodes.mpr (.inr ⟨_, List.mem_cons_self, hempty⟩),
    hparses.eq_zero hcode, by rw [houtput]; decide +kernel, by rw [herrors]; rfl⟩

end CommandLine

end Reckoner
