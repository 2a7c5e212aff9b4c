import Reckoner.Cursor.Evaluate
import Reckoner.Span
import Reckoner.Session.Cache

/-!
# Evaluation with a cache

A session evaluates texts and remembers the values of the latest ones.  Values of token lists and
of expressions at a cursor are not remembered.  Every operation gives its result, the session
afterwards and its records for the journal.
-/

namespace Reckoner

/-- A cache with its size limit, and the number of texts that were found in it and were not. -/
structure Session where
  limit : Int
  cache : Cache
  hits : Nat
  misses : Nat

namespace Session

/-- The result of an operation, the session afterwards and the records of the operation. -/
structure Step (α : Type) where
  result : Except Fault α
  session : Session
  records : List Record

/-- A fresh session; without a limit it has that of the standard settings. -/
def start (limit : Option Int) : Session :=
  ⟨limit.getD Settings.standard.cacheSize, [], 0, 0⟩

/-- Who speaks in the records of a session. -/
def speaker : String := "formula.evaluator"

/-- The beginning of a text, as far as the journal quotes it. -/
def excerpt (t : Text) : String := String.ofList (t.take 50)

/-- The cache once the value of a key that it did not have is known. -/
def remember (s : Session) (k : Key) (v : Option Float) : Except Fault Session := do
  if s.limit ≤ 0 then return s
  else return { s with cache := ← (s.cache.touch k v).trim s.limit }

/-- The value of a text, from the cache if it is there.  A failed evaluation leaves no entry. -/
def evaluate (s : Session) (dir : Direction) (t : Text) : Step (Option Float) :=
  let k : Key := ⟨t, dir⟩
  match s.cache.find? k with
  | some v =>
    ⟨.ok v, { s with cache := s.cache.touch k v, hits := s.hits + 1 },
      [⟨.debug, speaker, "Cache hit for expression: " ++ excerpt t⟩]⟩
  | none =>
    let s := { s with misses := s.misses + 1 }
    let records := (Cursor.whole t dir).evaluateRecords dir
    match evaluateText dir t with
    | .error f => ⟨.error f, s, records⟩
    | .ok v =>
      match s.remember k v with
      | .error f => ⟨.error f, s, records⟩
      | .ok s => ⟨.ok v, s, records⟩

/-- The value of an ordered list of tokens. -/
def evaluateTokens (s : Session) (ts : List Token) : Step (Option Float) :=
  match Reckoner.evaluate ts with
  | .ok v => ⟨.ok v, s, []⟩
  | .error cause => ⟨.error (.valueless cause), s, [cause.record]⟩

/-- The value of the expression at a cursor. -/
def evaluateCursor (s : Session) (dir : Direction) (c : Cursor) : Step (Option Float) :=
  ⟨(c.evaluate dir).1, s, c.evaluateRecords dir⟩

/-- The value of the expression in front of a position of a text, by default in front of its end. -/
def evaluateAt (s : Session) (t : Text) (pos : Option Int) : Step (Option Float) :=
  match extract t pos none none with
  | none =>
    let place := match pos with
      | some i => toString i
      | none => "None"
    ⟨.ok none, s, [⟨.debug, speaker, "No expression found at " ++ place ++ " in " ++
      Text.quotedString t⟩]⟩
  | some span =>
    let step := s.evaluate .forward (span.textOf t)
    { step with records := Span.records t (some span) ++ step.records }

/-- Forgets all entries and counts. -/
def clear (s : Session) : Step Unit :=
  ⟨.ok (), ⟨s.limit, [], 0, 0⟩,
    [⟨.info, speaker, "Cache cleared. Hits: " ++ toString s.hits ++ ", Misses: " ++
      toString s.misses⟩]⟩

/-- Sets the limit, which takes effect with the next entry. -/
def setLimit (s : Session) (limit : Int) : Session := { s with limit := limit }

end Session

end Reckoner
