import Mathlib.Data.List.DropRight
import Mathlib.Data.List.Forall2
import Reckoner.Proofs.Reading.Faults
import Reckoner.Session.Operation

/-!
# A session answers as if it had no cache

`Session.Operation.uncached` is the answer to an operation for which every text is evaluated afresh.
Whatever a session has done before, and whatever its limit has been set to, it answers every
operation in this way (`Session.history_eq_uncached`).

The invariant is that a cache is faithful: each of its entries is the value of its key, so that a
failed evaluation has no entry.  A hit is then answered rightly, and a miss adds an entry that is
faithful again.  Old entries are dropped only under a positive limit, so there is always an entry to
drop.
-/

namespace Reckoner

/-- The value of a text, afresh: that of its tokens. -/
def freshValue (dir : Direction) (t : Text) : Except Fault (Option Float) :=
  parse dir t >>= fun ts => (evaluate ts).mapError .valueless

/-- A text that is evaluated has the value of its tokens. -/
lemma evaluateText_eq (dir : Direction) (t : Text) : evaluateText dir t = freshValue dir t :=
  Cursor.evaluate_fst dir (Cursor.whole t dir)

/-- The fault of a text is one of an evaluation. -/
lemma isOfEvaluation_of_freshValue {dir : Direction} {t : Text} :
    ∀ f, freshValue dir t = .error f → f.IsOfEvaluation := by
  rw [← evaluateText_eq]
  exact Cursor.isOfEvaluation_of_evaluate

namespace Cache

/-- The caches in which every entry is the value of its key. -/
def Faithful (c : Cache) : Prop := ∀ e ∈ c, freshValue e.1.dir e.1.text = .ok e.2

variable {c : Cache} {k : Key} {v : Option Float}

/-- What is found for a key has been kept for it. -/
lemma mem_of_find?_eq_some (h : c.find? k = some v) : (k, v) ∈ c := by
  obtain ⟨⟨k', v'⟩, he, hv⟩ := Option.map_eq_some_iff.mp h
  have hkey : k' = k := by simpa using List.find?_some he
  have hmem := List.mem_of_find?_eq_some he
  rwa [← hkey, ← hv]

/-- What is found in a faithful cache is the value of its key. -/
lemma Faithful.freshValue_eq (hc : c.Faithful) (h : c.find? k = some v) :
    freshValue k.dir k.text = .ok v :=
  hc (k, v) (mem_of_find?_eq_some h)

/-- A key may be used in a faithful cache with its value. -/
lemma Faithful.touch (hc : c.Faithful) (h : freshValue k.dir k.text = .ok v) :
    (c.touch k v).Faithful := by
  intro e he
  rcases List.mem_append.mp he with hold | hnew
  · exact hc e (List.mem_filter.mp hold).1
  · obtain rfl := List.mem_singleton.mp hnew
    exact h

/-- The latest entries of a faithful cache are a faithful cache. -/
lemma Faithful.suffix {c' : Cache} (hc : c.Faithful) (h : c' <:+ c) : c'.Faithful := by
  intro e he
  exact hc e (h.subset he)

/-- Under a limit that is not negative, a cache can be trimmed, and as many of the latest entries
are kept as the limit allows. -/
lemma trim_eq_ok {limit : Int} (hlimit : 0 ≤ limit) (c : Cache) :
    c.trim limit = .ok (c.rtake limit.toNat) := by
  induction c with
  | nil => rw [trim, if_neg (Int.not_lt.mpr hlimit), List.rtake_nil]
  | cons e c ih =>
    rw [trim]
    split
    · have hnone : (e :: c).length - limit.toNat = 0 := by
        rw [List.length_cons]
        omega
      rw [List.rtake, hnone, List.drop_zero]
    · have hfirst : (e :: c).length - limit.toNat = c.length - limit.toNat + 1 := by
        rw [List.length_cons]
        omega
      rw [ih, List.rtake, List.rtake, hfirst, List.drop_succ_cons]

end Cache

namespace Session

/-! ## Answers without a cache -/

/-- The row of a text that is evaluated afresh, unless there is a fault that a batch does not
survive. -/
def freshRow (dir : Direction) (t : Text) : Except Fault Row :=
  match freshValue dir t with
  | .ok v => .ok (.ofValue t v)
  | .error f => if f.isOfExpression then .ok (.ofFault t f) else .error f

/-- The answer to an operation for which every text is evaluated afresh. -/
def Operation.uncached : Operation → Except Fault Answer
  | .evaluate dir t => .value <$> freshValue dir t
  | .evaluateTokens ts => .value <$> (Reckoner.evaluate ts).mapError .valueless
  | .evaluateCursor dir c => .value <$> (c.evaluate dir).1
  | .evaluateAt t pos =>
    .value <$> ((extract t pos none none).map (·.textOf t)).elim (.ok none) (freshValue .forward)
  | .evaluateMany dir ts => .rows <$> ts.mapM (freshRow dir)
  | .clear | .setLimit _ => .ok .done

/-- The fault of a row of texts is that of one of them. -/
lemma isOfEvaluation_of_mapM {dir : Direction} (ts : List Text) :
    ∀ f, ts.mapM (freshRow dir) = .error f → f.IsOfEvaluation := by
  have hrow : ∀ t f, freshRow dir t = .error f → f.IsOfEvaluation := by
    intro t f h
    unfold freshRow at h
    split at h
    · cases h
    · rename_i g hg
      split at h
      · cases h
      · obtain rfl := Except.error.inj h
        exact isOfEvaluation_of_freshValue _ hg
  induction ts with
  | nil =>
    intro f h
    cases h
  | cons t ts ih =>
    rw [List.mapM_cons]
    exact fault_of_bind (hrow t) fun _ => fault_of_bind ih fun _ _ h => by cases h

/-- Without a cache an operation ends with an answer or with a fault of an evaluation. -/
lemma isOfEvaluation_of_uncached (op : Operation) :
    ∀ f, op.uncached = .error f → f.IsOfEvaluation := by
  cases op with
  | evaluate dir t => exact fault_of_map isOfEvaluation_of_freshValue
  | evaluateTokens ts =>
    refine fault_of_map fun f h => ?_
    cases hvalue : Reckoner.evaluate ts with
    | ok v => simp [hvalue, Except.mapError] at h
    | error cause =>
      rw [hvalue] at h
      obtain rfl := Except.error.inj h
      trivial
  | evaluateCursor dir c => exact fault_of_map Cursor.isOfEvaluation_of_evaluate
  | evaluateAt t pos =>
    refine fault_of_map fun f h => ?_
    cases hspan : extract t pos none none with
    | none => simp [hspan] at h
    | some span =>
      rw [hspan] at h
      exact isOfEvaluation_of_freshValue f h
  | evaluateMany dir ts => exact fault_of_map (isOfEvaluation_of_mapM ts)
  | clear | setLimit limit =>
    intro f h
    cases h

/-! ## Steps -/

variable {s : Session}

/-- A value is remembered without a fault: unless the limit allows for no entries, its key is the
latest one, and the latest entries are kept. -/
lemma remember_eq_ok (s : Session) (k : Key) (v : Option Float) :
    s.remember k v = .ok (if s.limit ≤ 0 then s
      else { s with cache := (s.cache.touch k v).rtake s.limit.toNat }) := by
  unfold remember
  split
  · rfl
  · rename_i hlimit
    have hpositive : 0 ≤ s.limit := by omega
    rw [Cache.trim_eq_ok hpositive]
    rfl

/-- Where a value is remembered with its key, the cache stays faithful. -/
lemma exists_remember_eq_ok {k : Key} {v : Option Float} (hs : s.cache.Faithful)
    (h : freshValue k.dir k.text = .ok v) :
    ∃ s', s.remember k v = .ok s' ∧ s'.cache.Faithful := by
  refine ⟨_, s.remember_eq_ok k v, ?_⟩
  split
  · exact hs
  · exact (hs.touch h).suffix (List.drop_suffix _ _)

/-- A session with a faithful cache evaluates a text as it would without a cache, and its cache
stays faithful. -/
lemma evaluate_step (hs : s.cache.Faithful) (dir : Direction) (t : Text) :
    (s.evaluate dir t).result = freshValue dir t ∧ (s.evaluate dir t).session.cache.Faithful := by
  simp only [evaluate, evaluateText_eq]
  split
  · rename_i v hfound
    have hvalue : freshValue dir t = .ok v := hs.freshValue_eq hfound
    exact ⟨hvalue.symm, hs.touch hvalue⟩
  · split
    · rename_i f hfault
      exact ⟨hfault.symm, hs⟩
    · rename_i v hvalue
      -- A miss is counted before the evaluation, which does not concern the cache.
      have hmissed : ({ s with misses := s.misses + 1 } : Session).cache.Faithful := hs
      obtain ⟨s', hremember, hs'⟩ := exists_remember_eq_ok (k := ⟨t, dir⟩) hmissed hvalue
      rw [hremember]
      exact ⟨hvalue.symm, hs'⟩

/-- A session with a faithful cache evaluates a batch as it would without a cache, and its cache
stays faithful. -/
lemma evaluateMany_step (hs : s.cache.Faithful) (dir : Direction) (ts : List Text) :
    (s.evaluateMany dir ts).result = ts.mapM (freshRow dir) ∧
      (s.evaluateMany dir ts).session.cache.Faithful := by
  induction ts generalizing s with
  | nil => exact ⟨rfl, hs⟩
  | cons t ts ih =>
    obtain ⟨hresult, hs'⟩ := evaluate_step hs dir t
    obtain ⟨hrest, hs''⟩ := ih hs'
    rw [List.mapM_cons, freshRow, ← hresult, ← hrest]
    simp only [evaluateMany]
    cases (s.evaluate dir t).result with
    | ok v => exact ⟨rfl, hs''⟩
    | error f =>
      -- A fault of the expression has a row, and any other fault ends the batch.
      cases hexpression : f.isOfExpression with
      | true =>
        simp only [hexpression, if_true]
        exact ⟨rfl, hs''⟩
      | false =>
        simp only [hexpression, Bool.false_eq_true, if_false]
        exact ⟨rfl, hs'⟩

/-- A session with a faithful cache answers every operation as it would without a cache, and its
cache stays faithful. -/
theorem perform_step (hs : s.cache.Faithful) (op : Operation) :
    (s.perform op).result = op.uncached ∧ (s.perform op).session.cache.Faithful := by
  cases op with
  | evaluate dir t =>
    obtain ⟨hresult, hs'⟩ := evaluate_step hs dir t
    exact ⟨congrArg (Answer.value <$> ·) hresult, hs'⟩
  | evaluateTokens ts =>
    simp only [perform, Step.map, evaluateTokens, Operation.uncached]
    cases Reckoner.evaluate ts <;> exact ⟨rfl, hs⟩
  | evaluateCursor dir c => exact ⟨rfl, hs⟩
  | evaluateAt t pos =>
    simp only [perform, Step.map, evaluateAt, Operation.uncached]
    cases extract t pos none none with
    | none => exact ⟨rfl, hs⟩
    | some span =>
      obtain ⟨hresult, hs'⟩ := evaluate_step hs .forward (span.textOf t)
      exact ⟨congrArg (Answer.value <$> ·) hresult, hs'⟩
  | evaluateMany dir ts =>
    obtain ⟨hresult, hs'⟩ := evaluateMany_step hs dir ts
    exact ⟨congrArg (Answer.rows <$> ·) hresult, hs'⟩
  | clear => exact ⟨rfl, List.forall_mem_nil _⟩
  | setLimit limit => exact ⟨rfl, hs⟩

/-! ## Histories -/

/-- What holds of every operation of a session with a faithful cache holds all through a history
that begins with one. -/
lemma forall₂_history {P : Operation → Step Answer → Prop}
    (hP : ∀ s : Session, s.cache.Faithful → ∀ op, P op (s.perform op)) (hs : s.cache.Faithful)
    (ops : List Operation) : List.Forall₂ P ops (s.history ops) := by
  induction ops generalizing s with
  | nil => exact .nil
  | cons op ops ih =>
    have hnext := (perform_step hs op).2
    exact .cons (hP s hs op) (ih hnext)

/-- All through a history each operation is answered as it would be without a cache, every entry of
the cache is the value of its key, so that none is kept of a failed evaluation, and the cache itself
never fails. -/
theorem history_eq_uncached (limit : Option Int) (ops : List Operation) :
    List.Forall₂ (fun op step => step.result = op.uncached ∧
      (∀ e ∈ step.session.cache, freshValue e.1.dir e.1.text = .ok e.2) ∧
      step.result ≠ .error .emptyCache) ops ((start limit).history ops) := by
  have hstart : (start limit).cache.Faithful := List.forall_mem_nil _
  refine forall₂_history ?_ hstart ops
  intro s hs op
  obtain ⟨hresult, hs'⟩ := perform_step hs op
  refine ⟨hresult, hs', ?_⟩
  intro hfault
  rw [hresult] at hfault
  exact isOfEvaluation_of_uncached op _ hfault

end Session

end Reckoner
