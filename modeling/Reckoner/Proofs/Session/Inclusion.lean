import Reckoner.Proofs.Session.Recency

/-!
# A larger cache is never worse

Two sessions with different limits are asked for the same.  An evaluation may be a hit for one of
them and a miss for the other, so that the first one moves an entry where the second one adds one
and drops another.  But what each of them holds is told by the evaluations that they have been asked
for, and these are the same: the keys are the latest of them, fewer or more (`latest_suffix`), and
an evaluation that finds its key among fewer finds it among more (`Key.found_le`).  So after every
operation both have given the same answer, the keys of the smaller cache are the latest of the
larger one, and the smaller one has had no more hits (`Session.history_covered`).
-/

namespace Reckoner

/-- The last members of a list are the last ones of more of its last members. -/
lemma rtake_suffix_rtake {α : Type} {n m : Nat} (h : n ≤ m) (xs : List α) :
    xs.rtake n <:+ xs.rtake m :=
  List.drop_suffix_drop_left xs (Nat.sub_le_sub_left h xs.length)

/-- The latest of what is used are the latest ones of more of them. -/
lemma latest_suffix {α : Type} [DecidableEq α] {n m : Nat} (h : n ≤ m) (uses : List α) :
    latest n uses <:+ latest m uses :=
  rtake_suffix_rtake h uses.dedup

namespace Key

/-- What is found among the latest is found among more of the latest. -/
lemma found_le {n m : Nat} (h : n ≤ m) (ks : List Key) : found n ks ≤ found m ks := by
  refine List.countP_mono_left ?_
  rintro ⟨k, i⟩ -
  simp only [decide_eq_true_eq]
  exact fun hk => (latest_suffix h _).subset hk

end Key

namespace Session

open Key

variable {s l : Session} {k m : Int} {ks : List Key}

/-- The step of a session and that of another one with a larger limit: the answers are the same, the
keys of the first session are the latest ones of the second, in the same order, and since the latest
clearing the second has had at least as many hits, among as many evaluations. -/
structure Covered (small large : Step Answer) : Prop where
  result_eq : small.result = large.result
  keys_suffix : small.session.cache.keys <:+ large.session.cache.keys
  hits_le : small.session.hits ≤ large.session.hits
  count_eq : small.session.hits + small.session.misses =
    large.session.hits + large.session.misses

/-- An operation of two sessions that have been asked for the same evaluations before. -/
theorem covered_perform (hkm : k ≤ m) (hs : s.Reflects k ks) (hl : l.Reflects m ks)
    (hsf : s.cache.Faithful) (hlf : l.cache.Faithful) {op : Operation}
    (hop : ∀ n, op ≠ .setLimit n) : Covered (s.perform op) (l.perform op) := by
  have hs' := hs.perform hop
  have hl' := hl.perform hop
  have hlimit : k.toNat ≤ m.toNat := Int.toNat_le_toNat hkm
  refine ⟨?result, ?keys, ?hits, hs'.count_eq.trans hl'.count_eq.symm⟩
  case result => rw [(perform_step hsf op).1, (perform_step hlf op).1]
  case keys =>
    rw [hs'.keys_eq, hl'.keys_eq]
    exact latest_suffix hlimit _
  case hits =>
    rw [hs'.hits_eq, hl'.hits_eq]
    exact found_le hlimit _

/-- A row of operations of two sessions that have been asked for the same evaluations before. -/
lemma forall₂_covered (hkm : k ≤ m) (hs : s.Reflects k ks) (hl : l.Reflects m ks)
    (hsf : s.cache.Faithful) (hlf : l.cache.Faithful) {ops : List Operation}
    (hfixed : ∀ n, .setLimit n ∉ ops) :
    List.Forall₂ Covered (s.history ops) (l.history ops) := by
  induction ops generalizing s l ks with
  | nil => exact .nil
  | cons op ops ih =>
    have hop : ∀ n, op ≠ .setLimit n := by
      rintro n rfl
      exact hfixed n List.mem_cons_self
    have hops : ∀ n, .setLimit n ∉ ops := fun n hn => hfixed n (List.mem_cons_of_mem op hn)
    exact .cons (covered_perform hkm hs hl hsf hlf hop)
      (ih (hs.perform hop) (hl.perform hop) (perform_step hsf op).2 (perform_step hlf op).2 hops)

/-- Of two sessions with fixed limits that are asked for the same, the one with the larger limit is
never worse: all through their histories, they give the same answers, the keys of the smaller cache
are the latest keys of the larger one, and the smaller one has had no more hits, among as many
evaluations. -/
theorem history_covered (hkm : k ≤ m) {ops : List Operation}
    (hfixed : ∀ n, .setLimit n ∉ ops) :
    List.Forall₂ Covered ((start (some k)).history ops) ((start (some m)).history ops) := by
  have hempty : Cache.Faithful [] := List.forall_mem_nil _
  exact forall₂_covered hkm (reflects_start (some k)) (reflects_start (some m)) hempty hempty hfixed

/-- Under the limit 1 the second text makes the first one go, and under the limit 2 it does not, so
that in the batch the first text is a miss for one session and a hit for the other one. -/
theorem history_covered_one_two :
    let ops : List Operation := [.evaluate .forward ['1'], .evaluate .forward ['2'],
      .evaluateMany .forward [['x'], ['1']]]
    (1 : Int) ≤ 2 ∧ (∀ n, .setLimit n ∉ ops) ∧
      List.Forall₂ Covered ((start (some 1)).history ops) ((start (some 2)).history ops) ∧
      ((start (some 1)).history ops).map (·.session.hits) = [0, 0, 0] ∧
      ((start (some 2)).history ops).map (·.session.hits) = [0, 0, 1] := by
  intro ops
  have hfixed : ∀ n, .setLimit n ∉ ops := by simp [ops]
  exact ⟨by decide, hfixed, history_covered (by decide) hfixed, by decide +kernel,
    by decide +kernel⟩

end Session

end Reckoner
