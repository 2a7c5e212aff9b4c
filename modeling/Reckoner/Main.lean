import Reckoner.CommandLine.Program

/-!
# The program's entry

Reads the file that the arguments name, runs the program and writes what it leaves.
-/

/-- The program. -/
def main (args : List String) : IO UInt32 := do
  let words := args.map String.toList
  let content ← match Reckoner.CommandLine.fileOf? words with
    | some name => some <$> IO.FS.readFile (String.ofList name)
    | none => pure none
  let ending := Reckoner.CommandLine.runProgram words (content.map String.toList)
  (← IO.getStdout).putStr ending.output
  (← IO.getStderr).putStr ending.errors
  return ending.code.toUInt32
