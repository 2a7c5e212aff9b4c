import Mathlib.Data.List.Dedup
import Reckoner.Proofs.Reading.Columns
import Reckoner.Proofs.Session.Transparency

/-!
# A cache keeps what was used last

What a session holds is told by the evaluations that it has been asked for since it was cleared:
`Session.asked` are their keys in order, and `used` are those among them that did not fail.  The
keys of the cache are the latest ones of those that were used, as many as the limit allows, in the
order of their last use (`latest`).  An evaluation is a hit if its key is one of them, and a miss
else, so hits and misses add up to the evaluations (`Session.cache_after`).

`latest_append` is the law of one use: a key that is used becomes the latest, and what the limit
does not allow for goes.  It is what a hit does as well as a miss, since a hit moves a key that is
there.
-/

namespace Reckoner

/-! ## Latest uses -/

/-- Of two lists, one after the other, the last members are those of the second one if it has
enough. -/
lemma rtake_append_of_le_length {α : Type} {xs ys : List α} {n : Nat} (h : n ≤ ys.length) :
    (xs ++ ys).rtake n = ys.rtake n := by
  have hdrop : (xs ++ ys).length - n = xs.length + (ys.length - n) := by
    rw [List.length_append]
    omega
  rw [List.rtake, List.rtake, hdrop, List.drop_length_add_append]

section Latest

variable {α : Type} [DecidableEq α]

/-- The last `n` different members of a list, in the order in which they occur last. -/
def latest (n : Nat) (uses : List α) : List α := uses.dedup.rtake n

/-- A member at the end of a list occurs last there. -/
lemma dedup_append_singleton (uses : List α) (a : α) :
    (uses ++ [a]).dedup = uses.dedup.filter (· != a) ++ [a] := by
  induction uses with
  | nil => rfl
  | cons b uses ih =>
    rw [List.cons_append]
    by_cases hlater : b ∈ uses
    · have hmem : b ∈ uses ++ [a] := List.mem_append_left [a] hlater
      rw [List.dedup_cons_of_mem hmem, List.dedup_cons_of_mem hlater, ih]
    rw [List.dedup_cons_of_notMem hlater]
    by_cases hlast : b = a
    · have hmem : b ∈ uses ++ [a] := by simp [hlast]
      rw [List.dedup_cons_of_mem hmem, ih, List.filter_cons_of_neg (by simp [hlast])]
    · have hmem : b ∉ uses ++ [a] := by simp [hlater, hlast]
      rw [List.dedup_cons_of_notMem hmem, ih, List.filter_cons_of_pos (by simp [hlast]),
        List.cons_append]

/-- The last members of a list without one of its members are found among one more of the last. -/
lemma rtake_filter_rtake {xs : List α} (hxs : xs.Nodup) (n : Nat) (a : α) :
    ((xs.rtake (n + 1)).filter (· != a)).rtake n = (xs.filter (· != a)).rtake n := by
  have hsplit : xs.take (xs.length - (n + 1)) ++ xs.rtake (n + 1) = xs := List.take_append_drop _ _
  rcases Nat.le_total xs.length (n + 1) with hshort | hlong
  · have hall : xs.rtake (n + 1) = xs := by
      rw [List.rtake, Nat.sub_eq_zero_of_le hshort, List.drop_zero]
    rw [hall]
  · have hnodup : (xs.rtake (n + 1)).Nodup := hxs.sublist (List.drop_sublist _ _)
    have hlength : (xs.rtake (n + 1)).length = n + 1 := by
      rw [List.rtake, List.length_drop]
      omega
    -- At most one member is taken away.
    have henough : n ≤ ((xs.rtake (n + 1)).filter (· != a)).length := by
      have herase := List.le_length_erase (a := a) (l := xs.rtake (n + 1))
      rw [hnodup.erase_eq_filter] at herase
      omega
    conv_rhs => rw [← hsplit, List.filter_append]
    exact (rtake_append_of_le_length henough).symm

/-- What is used becomes the latest, and only the latest are kept. -/
theorem latest_append (n : Nat) (uses : List α) (a : α) :
    latest n (uses ++ [a]) = ((latest n uses).filter (· != a) ++ [a]).rtake n := by
  unfold latest
  rw [dedup_append_singleton]
  cases n with
  | zero => rw [List.rtake_zero, List.rtake_zero]
  | succ n =>
    rw [List.rtake_concat_succ, List.rtake_concat_succ,
      rtake_filter_rtake (List.nodup_dedup uses)]

/-- The latest of what is used are not more than are kept. -/
lemma length_latest_le (n : Nat) (uses : List α) : (latest n uses).length ≤ n := by
  rw [latest, List.rtake, List.length_drop]
  omega

/-- The latest of what is used are among what is used. -/
lemma mem_of_mem_latest {n : Nat} {uses : List α} {a : α} (h : a ∈ latest n uses) : a ∈ uses :=
  List.mem_dedup.mp (List.mem_of_mem_drop h)

/-- A member that is used again while it is among the latest only moves to their end. -/
lemma latest_append_of_mem {n : Nat} {uses : List α} {a : α} (h : a ∈ latest n uses) :
    latest n (uses ++ [a]) = (latest n uses).filter (· != a) ++ [a] := by
  have hnodup : (latest n uses).Nodup :=
    (List.nodup_dedup uses).sublist (List.drop_sublist _ _)
  have hlength : ((latest n uses).filter (· != a) ++ [a]).length - n = 0 := by
    have herase := List.length_erase_of_mem h
    rw [hnodup.erase_eq_filter] at herase
    have hkept := length_latest_le n uses
    rw [List.length_append, List.length_singleton, herase]
    have := List.length_pos_of_mem h
    omega
  rw [latest_append, List.rtake, hlength, List.drop_zero]

end Latest

/-! ## Evaluations of a session -/

namespace Key

/-- Does the evaluation of the text end without a fault? -/
def succeeds (k : Key) : Bool := (evaluateText k.dir k.text).isOk

/-- The evaluations that did not fail. -/
def used (ks : List Key) : List Key := ks.filter succeeds

/-- The number of evaluations whose key was among the latest `n` that had been used before. -/
def found (n : Nat) (ks : List Key) : Nat :=
  ks.zipIdx.countP fun (k, i) => k ∈ latest n (used (ks.take i))

end Key

namespace Session

open Key

/-- The evaluations of texts that an operation asks for. -/
def Operation.keys : Operation → List Key
  | .evaluate dir t => [⟨t, dir⟩]
  | .evaluateAt t pos =>
    ((extract t pos none none).map fun span => ⟨span.textOf t, .forward⟩).toList
  | .evaluateMany dir ts => ts.map fun t => ⟨t, dir⟩
  | .evaluateTokens _ | .evaluateCursor .. | .clear | .setLimit _ => []

/-- The evaluations of texts that have been asked for after an operation, if `ks` have been asked
for before. -/
def Operation.keysAfter (ks : List Key) : Operation → List Key
  | .clear => []
  | op => ks ++ op.keys

/-- The evaluations of texts that a row of operations has asked for since the latest clearing. -/
def asked (ops : List Operation) : List Key := ops.foldl Operation.keysAfter []

/-- The session after a row of operations. -/
def after (s : Session) (ops : List Operation) : Session :=
  ops.foldl (fun s op => (s.perform op).session) s

end Session

namespace Cache

variable {c : Cache} {k : Key}

/-- A key that is used becomes the latest. -/
lemma keys_touch (c : Cache) (k : Key) (v : Option Float) :
    (c.touch k v).keys = c.keys.filter (· != k) ++ [k] := by
  simp [touch, erase, keys, List.filter_map, Function.comp_def]

/-- The latest entries have the latest keys. -/
lemma keys_rtake (c : Cache) (n : Nat) : keys (c.rtake n) = c.keys.rtake n := by
  simp [keys, List.rtake]

/-- A key is found if the cache has it. -/
lemma mem_keys_of_find?_eq_some {v : Option Float} (h : c.find? k = some v) : k ∈ c.keys :=
  List.mem_map_of_mem (mem_of_find?_eq_some h)

/-- A key is not found if the cache does not have it. -/
lemma not_mem_keys_of_find?_eq_none (h : c.find? k = none) : k ∉ c.keys := by
  intro hmem
  obtain ⟨e, he, rfl⟩ := List.mem_map.mp hmem
  have hnone := List.find?_eq_none.mp (Option.map_eq_none_iff.mp h) e he
  exact hnone (beq_self_eq_true e.1)

end Cache

namespace Key

variable {ks : List Key} {k : Key} {n : Nat}

/-- An evaluation that does not fail is one more use. -/
lemma used_append_of_succeeds (h : k.succeeds) : used (ks ++ [k]) = used ks ++ [k] := by
  simp [used, h]

/-- An evaluation that fails is no use. -/
lemma used_append_of_fails (h : k.succeeds = false) : used (ks ++ [k]) = used ks := by
  simp [used, h]

/-- One more evaluation is one more hit if its key is among the latest that have been used. -/
lemma found_append (n : Nat) (ks : List Key) (k : Key) :
    found n (ks ++ [k]) = found n ks + if k ∈ latest n (used ks) then 1 else 0 := by
  have htake : (ks ++ [k]).take ks.length = ks := List.take_left
  rw [found, found, List.zipIdx_append, List.countP_append, List.zipIdx_singleton,
    List.countP_singleton]
  congr 1
  · refine List.countP_congr ?_
    rintro ⟨k', i⟩ he
    have hinside : i ≤ ks.length := by
      have hlt := List.snd_lt_of_mem_zipIdx he
      omega
    simp only [List.take_append_of_le_length hinside]
  · simp only [Nat.zero_add, htake, decide_eq_true_eq]

end Key

namespace Session

open Key

variable {s : Session} {limit : Int} {ks : List Key}

/-! ## What an evaluation does to a session -/

/-- The session has been asked for the evaluations `ks` under the limit: its keys are the latest of
those that have been used, and it has counted how many evaluations have found their keys. -/
structure Reflects (limit : Int) (ks : List Key) (s : Session) : Prop where
  limit_eq : s.limit = limit
  keys_eq : s.cache.keys = latest limit.toNat (used ks)
  hits_eq : s.hits = found limit.toNat ks
  count_eq : s.hits + s.misses = ks.length

/-- A fresh session has been asked for nothing. -/
lemma reflects_start (limit : Option Int) : (start limit).Reflects (start limit).limit [] where
  limit_eq := rfl
  keys_eq := by
    simp [start, Cache.keys, used, latest]
  hits_eq := rfl
  count_eq := rfl

/-- An evaluation is a hit if its key is among the latest that have been used, and a miss else; if
it does not fail, its key becomes the latest. -/
theorem Reflects.evaluate (h : s.Reflects limit ks) (dir : Direction) (t : Text) :
    (s.evaluate dir t).session.Reflects limit (ks ++ [⟨t, dir⟩]) := by
  obtain ⟨rfl, hkeys, hhits, hcount⟩ := h
  simp only [Session.evaluate]
  cases hfound : s.cache.find? ⟨t, dir⟩ with
  | some v =>
    have hmem : (⟨t, dir⟩ : Key) ∈ latest s.limit.toNat (used ks) := by
      rw [← hkeys]
      exact Cache.mem_keys_of_find?_eq_some hfound
    have hsucceeds : (⟨t, dir⟩ : Key).succeeds := (List.mem_filter.mp (mem_of_mem_latest hmem)).2
    refine ⟨rfl, ?keys, ?hits, ?count⟩
    case keys =>
      rw [used_append_of_succeeds hsucceeds, latest_append_of_mem hmem, ← hkeys]
      exact Cache.keys_touch _ _ _
    case hits => rw [found_append, if_pos hmem, ← hhits]
    case count =>
      simp only [List.length_append, List.length_singleton]
      omega
  | none =>
    have hmem : (⟨t, dir⟩ : Key) ∉ latest s.limit.toNat (used ks) := by
      rw [← hkeys]
      exact Cache.not_mem_keys_of_find?_eq_none hfound
    have hmissed : found s.limit.toNat (ks ++ [⟨t, dir⟩]) = s.hits := by
      rw [found_append, if_neg hmem, Nat.add_zero, hhits]
    have hmisses : s.hits + (s.misses + 1) = (ks ++ [(⟨t, dir⟩ : Key)]).length := by
      rw [List.length_append, List.length_singleton]
      omega
    simp only
    cases hvalue : evaluateText dir t with
    | error f =>
      have hfails : (⟨t, dir⟩ : Key).succeeds = false := by
        rw [Key.succeeds, hvalue]
        rfl
      exact ⟨rfl, by rwa [used_append_of_fails hfails], hmissed.symm, hmisses⟩
    | ok v =>
      have hsucceeds : (⟨t, dir⟩ : Key).succeeds := by
        rw [Key.succeeds, hvalue]
        rfl
      simp only [remember_eq_ok]
      by_cases hlimit : s.limit ≤ 0
      · -- Under such a limit nothing is kept.
        rw [if_pos hlimit]
        refine ⟨rfl, ?_, hmissed.symm, hmisses⟩
        have hzero : s.limit.toNat = 0 := by omega
        rw [hzero] at hkeys ⊢
        simpa [latest] using hkeys
      · rw [if_neg hlimit]
        refine ⟨rfl, ?_, hmissed.symm, hmisses⟩
        rw [used_append_of_succeeds hsucceeds, latest_append, ← hkeys, ← Cache.keys_touch _ _ v]
        exact Cache.keys_rtake _ _

/-- The fault with which an evaluation ends is one of the expression. -/
lemma isOfExpression_of_evaluate {dir : Direction} {t : Text} {f : Fault}
    (h : (s.evaluate dir t).result = .error f) : f.isOfExpression := by
  simp only [Session.evaluate] at h
  cases hfound : s.cache.find? ⟨t, dir⟩ with
  | some v => simp [hfound] at h
  | none =>
    simp only [hfound] at h
    cases hvalue : evaluateText dir t with
    | ok v => simp [hvalue, remember_eq_ok] at h
    | error g =>
      simp only [hvalue] at h
      obtain rfl := Except.error.inj h
      exact isOfExpression_of_evaluateText hvalue

/-- A batch is evaluated to its end, one text after the other. -/
lemma Reflects.evaluateMany (h : s.Reflects limit ks) (dir : Direction) (ts : List Text) :
    (s.evaluateMany dir ts).session.Reflects limit (ks ++ ts.map fun t => ⟨t, dir⟩) := by
  induction ts generalizing s ks with
  | nil => simpa [Session.evaluateMany] using h
  | cons t ts ih =>
    have hrest := ih (h.evaluate dir t)
    rw [List.append_assoc, List.singleton_append] at hrest
    rw [List.map_cons]
    simp only [Session.evaluateMany]
    cases hresult : (s.evaluate dir t).result with
    | ok v => exact hrest
    | error f =>
      simp only [isOfExpression_of_evaluate hresult, if_true]
      exact hrest

/-- Token lists are evaluated without a trace in the session. -/
lemma session_perform_evaluateTokens (s : Session) (ts : List Token) :
    (s.perform (.evaluateTokens ts)).session = s := by
  simp only [perform, Step.map, evaluateTokens]
  cases Reckoner.evaluate ts <;> rfl

/-- Every operation that does not change the limit adds its evaluations to those that have been
asked for before, and clearing forgets them all. -/
theorem Reflects.perform (h : s.Reflects limit ks) {op : Operation} (hop : ∀ n, op ≠ .setLimit n) :
    (s.perform op).session.Reflects limit (op.keysAfter ks) := by
  have hnothing : s.Reflects limit (ks ++ []) := by rwa [List.append_nil]
  cases op with
  | evaluate dir t => exact h.evaluate dir t
  | evaluateTokens ts =>
    rw [session_perform_evaluateTokens]
    exact hnothing
  | evaluateCursor dir c => exact hnothing
  | evaluateAt t pos =>
    simp only [Session.perform, Step.map, Session.evaluateAt, Operation.keysAfter, Operation.keys]
    cases extract t pos none none with
    | none => exact hnothing
    | some span => exact h.evaluate .forward (span.textOf t)
  | evaluateMany dir ts => exact h.evaluateMany dir ts
  | clear =>
    refine ⟨h.limit_eq, ?_, rfl, rfl⟩
    exact (reflects_start (some limit)).keys_eq
  | setLimit n => exact absurd rfl (hop n)

/-- A row of operations that does not change the limit adds up what its operations add. -/
theorem Reflects.after (h : s.Reflects limit ks) {ops : List Operation}
    (hfixed : ∀ n, .setLimit n ∉ ops) :
    (s.after ops).Reflects limit (ops.foldl Operation.keysAfter ks) := by
  induction ops generalizing s ks with
  | nil => exact h
  | cons op ops ih =>
    have hop : ∀ n, op ≠ .setLimit n := by
      rintro n rfl
      exact hfixed n List.mem_cons_self
    have hops : ∀ n, .setLimit n ∉ ops := fun n hn => hfixed n (List.mem_cons_of_mem op hn)
    exact ih (h.perform hop) hops

/-- After any row of operations under a fixed limit, the keys of the cache are the latest of those
that have been used since the cache was cleared, as many as the limit allows and in the order of
their last use.  Every evaluation of a text has been a hit, if its key was one of these, or a miss;
token lists and expressions at a cursor leave keys and counts as they are. -/
theorem cache_after (limit : Option Int) {ops : List Operation} (hfixed : ∀ n, .setLimit n ∉ ops) :
    let s := (start limit).after ops
    let n := (start limit).limit.toNat
    s.cache.keys = latest n (used (asked ops)) ∧ s.hits = found n (asked ops) ∧
      s.hits + s.misses = (asked ops).length ∧
      (∀ ts, (s.perform (.evaluateTokens ts)).session = s) ∧
      ∀ dir c, (s.perform (.evaluateCursor dir c)).session = s := by
  have hreflects := (reflects_start limit).after hfixed
  refine ⟨hreflects.keys_eq, hreflects.hits_eq, hreflects.count_eq, ?tokens, ?cursor⟩
  case tokens =>
    intro ts
    exact session_perform_evaluateTokens _ ts
  case cursor =>
    intro dir c
    rfl

/-- Under the limit 2, the batch moves `1` behind `2`, the letter is a miss and no use, and the text
read from the right has a key of its own: it makes `2` go, which is then evaluated again. -/
theorem cache_after_batch :
    let ops : List Operation := [.evaluate .forward ['1'], .evaluateTokens [],
      .evaluateMany .forward [['2'], ['x'], ['1']], .evaluate .backward ['1'],
      .evaluateAt ['x', ' ', '2'] none]
    (∀ n, .setLimit n ∉ ops) ∧
      ((start (some 2)).after ops).cache.keys = [⟨['1'], .backward⟩, ⟨['2'], .forward⟩] ∧
      ((start (some 2)).after ops).hits = 1 ∧ ((start (some 2)).after ops).misses = 5 := by
  intro ops
  have hfixed : ∀ n, .setLimit n ∉ ops := by simp [ops]
  obtain ⟨hkeys, hhits, hcount, -⟩ := cache_after (some 2) hfixed
  have hlatest : latest 2 (used (asked ops)) = [⟨['1'], .backward⟩, ⟨['2'], .forward⟩] := by
    decide +kernel
  have hfound : found 2 (asked ops) = 1 := by decide +kernel
  have hasked : (asked ops).length = 6 := by decide +kernel
  have hhit : ((start (some 2)).after ops).hits = 1 := hhits.trans hfound
  refine ⟨hfixed, hkeys.trans hlatest, hhit, ?_⟩
  omega

end Session

end Reckoner
