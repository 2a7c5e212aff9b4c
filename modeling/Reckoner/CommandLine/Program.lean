import Reckoner.CommandLine.Options
import Reckoner.Infix
import Reckoner.Session.Table

/-!
# The program

What the command line program writes and how it ends, for given arguments and the text of the file
that they name.  A run either lists the ordered tokens of the expressions, or shows the value of the
expression in front of a position, or shows a table of the values of all expressions.
-/

namespace Reckoner.CommandLine

/-- What a run of the program leaves: its exit code, its output and its records. -/
structure Report where
  code : Nat
  output : String
  records : List Record

/-- What the program leaves to its caller. -/
structure Ending where
  code : Nat
  output : String
  errors : String
deriving DecidableEq, Repr

/-- Who speaks in the records of the program. -/
def speaker : String := "__main__"

/-- The expressions of a file: its lines without the spacing around them and without empty lines. -/
def fileExpressions (content : Text) : List Text :=
  ((Text.lines content).map Text.trimLine).filter (· ≠ [])

/-- The direction that the options ask for. -/
def Options.direction (o : Options) : Direction := if o.backward then .backward else .forward

/-- A value as the program shows it. -/
def valueText : Option Float → String
  | some v => String.ofList (Double.display v)
  | none => "None"

/-- Shows the value of the expression in front of a position. -/
def reportExtract (t : Text) (pos : Int) : Except Fault Report :=
  match extract t (some pos) none none with
  | none => .ok ⟨1, "No expression found at " ++ toString pos ++ "\n", []⟩
  | some span =>
    let part := span.textOf t
    let step := (Session.start none).evaluate .forward part
    let records := Span.records t (some span) ++ step.records
    match step.result with
    | .ok v =>
      let shown := span.describe ++ " " ++ Text.quotedString part ++ " = " ++ valueText v ++ "\n"
      .ok ⟨0, shown, records⟩
    | .error f =>
      if f.isOfExpression then
        .ok ⟨1, "", records ++
          [⟨.error, speaker, "Failed to evaluate extracted expression: " ++ f.message⟩]⟩
      else .error f

/-- Lists the ordered tokens of each expression.  An expression that cannot be read is reported, and
the list goes on. -/
def reportTokens (dir : Direction) : List Text → Except Fault Report
  | [] => .ok ⟨0, "", []⟩
  | t :: ts => do
    let parsed := (Cursor.whole t dir).parse dir
    let records := Cursor.parseRecords dir parsed
    match parsed.1 with
    | .ok tokens =>
      let rest ← reportTokens dir ts
      let labels := " ".intercalate (tokens.map fun token => String.ofList token.label)
      return ⟨rest.code, String.ofList t ++ ": " ++ labels ++ "\n" ++ rest.output,
        records ++ rest.records⟩
    | .error f =>
      if f.isOfExpression then
        let rest ← reportTokens dir ts
        return ⟨1, rest.output, records ++
          ⟨.error, speaker, String.ofList t ++ ": " ++ f.message⟩ :: rest.records⟩
      else .error f

/-- Shows a table of the values of all expressions. -/
def reportTable (dir : Direction) (ts : List Text) : Except Fault Report := do
  let step := (Session.start none).evaluateMany dir ts
  let rows ← step.result
  let failed := rows.countP (·.error.isSome)
  return ⟨if failed = 0 then 0 else 1, Table.render rows, step.records ++
    [⟨.info, speaker, "Evaluated " ++ toString rows.length ++ " expressions, " ++
      toString failed ++ " failed"⟩]⟩

/-- What ends a run without a report: a fault that is not of an expression, or a switch without the
value that the run cannot do without. -/
inductive Breakdown
  | fault (f : Fault)
  | blank (s : Switch)

/-- The message of a breakdown. -/
def Breakdown.message : Breakdown → String
  | fault f => f.message
  | blank s => "argument " ++ s.name ++ ": no value"

/-- Runs the program with options and the expressions of the file. -/
def report (o : Options) (fromFile : List Text) : Except Breakdown Report :=
  match o.expressions ++ fromFile with
  | [] => .ok ⟨2, "", [⟨.error, speaker, "No expressions given"⟩]⟩
  | t :: ts =>
    match o.extract, o.tokens with
    | .blank, _ => .error (.blank .extract)
    | .given pos, _ => (reportExtract t pos).mapError .fault
    | .untouched, true => (reportTokens o.direction (t :: ts)).mapError .fault
    | .untouched, false => (reportTable o.direction (t :: ts)).mapError .fault

/-- The least level of the records that are written. -/
def Options.leastLevel (o : Options) : Except Breakdown Level :=
  match o.level with
  | .untouched => .ok Settings.standard.level
  | .blank => .error (.blank .logLevel)
  | .given level => .ok level

/-- The end of a run, of whose records those that matter are written. -/
def Report.ending (level : Level) (r : Report) : Ending :=
  ⟨r.code, r.output, String.join ((Record.atLeast level r.records).map Record.line)⟩

/-- The end of a program that has not been called as it should be. -/
def Misuse.ending (m : Misuse) : Ending :=
  ⟨2, "", usage ++ "main.py: error: " ++ m.message ++ "\n"⟩

/-- The end of a run that has no report. -/
def Breakdown.ending (b : Breakdown) : Ending := ⟨1, "", b.message ++ "\n"⟩

/-- The file that a command line asks for, if it has one. -/
def fileOf? (args : List Text) : Option Text :=
  match Request.ofArguments args with
  | .ok (.run o) => if o.file = some [] then none else o.file
  | _ => none

/-- The end of a program that runs with options. -/
def runOptions (o : Options) (fromFile : List Text) : Ending :=
  match o.leastLevel, report o fromFile with
  | .error b, _ | .ok _, .error b => b.ending
  | .ok level, .ok r => r.ending level

/-- The end of a program with given arguments; `content` is the text of the file that they name. -/
def runProgram (args : List Text) (content : Option Text) : Ending :=
  match Request.ofArguments args with
  | .error m => m.ending
  | .ok .help => ⟨0, help, ""⟩
  | .ok (.run o) =>
    let fromFile := match fileOf? args, content with
      | some _, some t => fileExpressions t
      | _, _ => []
    runOptions o fromFile

end Reckoner.CommandLine
