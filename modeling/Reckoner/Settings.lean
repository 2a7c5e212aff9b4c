import Reckoner.Journal

/-!
# Settings

The numbers and switches that the library runs with, and the conditions under which they make
sense: the nesting step must be greater than every offset of an operator, so that parentheses bind
more tightly than operators, and a cache cannot have less than no entries.
-/

namespace Reckoner

/-- The nesting step of priorities, the size limit of a cache, the two switches of extraction, and
the level and the format of the journal. -/
structure Settings where
  nestingStep : Int
  cacheSize : Int
  lookAhead : Bool
  blanks : Bool
  level : Level
  logFormat : String

namespace Settings

/-- The settings of a fresh library. -/
def standard : Settings where
  nestingStep := 10
  cacheSize := 1000
  lookAhead := true
  blanks := true
  level := .warning
  logFormat := "%(asctime)s - %(name)s - %(levelname)s - %(message)s"

/-- Why settings make no sense. -/
inductive Defect
  | smallStep
  | negativeCache
deriving DecidableEq, Repr

/-- The message of a defect. -/
def Defect.message : Defect → String
  | smallStep => "括号优先级步长必须大于操作符偏移"
  | negativeCache => "缓存大小不能为负"

/-- What is told of settings that make sense. -/
def approval : String := "Configuration validated successfully!\n"

/-- The first defect of the settings, or their approval. -/
def validate (s : Settings) : Except Defect String :=
  if s.nestingStep ≤ 2 then .error .smallStep
  else if s.cacheSize < 0 then .error .negativeCache
  else .ok approval

end Settings

end Reckoner
