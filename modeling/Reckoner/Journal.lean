/-!
# The journal

What the library has to tell beside its results: records with a level, the part that speaks and a
message.  Records are data; a program writes those from the level that it has been given.
-/

namespace Reckoner

/-- How much a record matters. -/
inductive Level
  | debug
  | info
  | warning
  | error
deriving DecidableEq, Repr

namespace Level

/-- The levels in increasing order. -/
def rank : Level → Nat
  | debug => 0
  | info => 1
  | warning => 2
  | error => 3

/-- The name of a level. -/
def name : Level → String
  | debug => "DEBUG"
  | info => "INFO"
  | warning => "WARNING"
  | error => "ERROR"

/-- All levels, the least first. -/
def all : List Level := [debug, info, warning, error]

/-- The level with a name. -/
def ofName? (s : String) : Option Level := all.find? (·.name == s)

end Level

/-- One record of the journal. -/
structure Record where
  level : Level
  speaker : String
  message : String
deriving DecidableEq, Repr

namespace Record

/-- The records that matter at least as much as `level`. -/
def atLeast (level : Level) (records : List Record) : List Record :=
  records.filter fun r => level.rank ≤ r.level.rank

/-- A record as a line of text. -/
def line (r : Record) : String := r.speaker ++ " - " ++ r.level.name ++ " - " ++ r.message ++ "\n"

end Record

end Reckoner
