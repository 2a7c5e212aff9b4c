import Reckoner.Fault

/-!
# A cache in order of use

A cache keeps the values of texts by text and direction, the entry that was used longest ago first.
Looking an entry up makes it the latest; when there are more entries than the limit, the oldest go.
-/

namespace Reckoner

/-- What an entry of the cache is found by. -/
structure Key where
  text : Text
  dir : Direction
deriving DecidableEq, Repr

/-- The entries of a cache, the oldest use first. -/
abbrev Cache := List (Key × Option Float)

namespace Cache

/-- The value kept for a key. -/
def find? (c : Cache) (k : Key) : Option (Option Float) :=
  (List.find? (fun e => e.1 == k) c).map (·.2)

/-- The entries without that of a key. -/
def erase (c : Cache) (k : Key) : Cache := c.filter (·.1 != k)

/-- The cache in which a key has been used last, with its value. -/
def touch (c : Cache) (k : Key) (v : Option Float) : Cache := c.erase k ++ [(k, v)]

/-- Drops the oldest entries until no more than `limit` are left.  There is nothing to drop from a
cache without entries, which no limit below zero allows for. -/
def trim (limit : Int) : Cache → Except Fault Cache
  | [] => if limit < 0 then .error .emptyCache else .ok []
  | e :: c => if (c.length + 1 : Int) ≤ limit then .ok (e :: c) else trim limit c

/-- The keys of the entries, the oldest use first. -/
def keys (c : Cache) : List Key := c.map (·.1)

end Cache

end Reckoner
