import Reckoner.CommandLine.Usage
import Reckoner.Number.Literal
import Reckoner.Settings
import Reckoner.Text.Quoted

/-!
# Options of the command line

The words of a command line are first sorted into options and operands, each by itself; then they
are taken from left to right.  A long option may be shortened as long as it stays unique and may
carry its value behind an equals sign; the word `--` there is no value, and leaves the option blank.
Words that begin with a hyphen are operands only if they are
a lone hyphen, a negative number or contain a space, or stand behind `--`.  The expressions must
form one run of operands.
-/

namespace Reckoner.CommandLine

/-- The switches that a command line can set. -/
inductive Switch
  | help
  | file
  | backward
  | extract
  | tokens
  | logLevel
deriving DecidableEq, Repr

namespace Switch

/-- The long spelling of a switch. -/
def long : Switch → String
  | help => "--help"
  | file => "--file"
  | backward => "--backward"
  | extract => "--extract"
  | tokens => "--tokens"
  | logLevel => "--log-level"

/-- All switches, in the order in which they are offered. -/
def all : List Switch := [help, file, backward, extract, tokens, logLevel]

/-- The name of a switch in messages. -/
def name : Switch → String
  | help => "-h/--help"
  | s => s.long

/-- Does the switch come with a value? -/
def takesValue : Switch → Bool
  | file | extract | logLevel => true
  | help | backward | tokens => false

/-- The switch with exactly this spelling. -/
def ofSpelling? (t : Text) : Option Switch :=
  if t = ['-', 'h'] then some help else all.find? (·.long.toList == t)

end Switch

/-- Why a command line cannot be used. -/
inductive Misuse
  | ambiguous (word : Text) (candidates : List Switch)
  | missingValue (switch : Switch)
  | needlessValue (switch : Switch) (value : Text)
  | notInteger (value : Text)
  | notLevel (value : Text)
  | unrecognized (words : List Text)
deriving DecidableEq, Repr

/-- The message of a misused command line. -/
def Misuse.message : Misuse → String
  | ambiguous word candidates =>
    "ambiguous option: " ++ String.ofList word ++ " could match " ++
      ", ".intercalate (candidates.map Switch.long)
  | missingValue s => "argument " ++ s.name ++ ": expected one argument"
  | needlessValue s v =>
    "argument " ++ s.name ++ ": ignored explicit argument " ++ Text.quotedString v
  | notInteger v => "argument --extract: invalid int value: " ++ Text.quotedString v
  | notLevel v =>
    "argument --log-level: invalid choice: " ++ Text.quotedString v ++ " (choose from " ++
      ", ".intercalate (Level.all.map fun l => Text.quotedString l.name.toList) ++ ")"
  | unrecognized words =>
    "unrecognized arguments: " ++ " ".intercalate (words.map String.ofList)

/-- What a command line says of a setting: nothing, its switch without a value, or a value. -/
inductive Setting (α : Type)
  | untouched
  | blank
  | given (value : α)
deriving DecidableEq, Repr

/-- What a command line asks for. -/
structure Options where
  expressions : List Text
  file : Option Text
  backward : Bool
  extract : Setting Int
  tokens : Bool
  level : Setting Level
deriving DecidableEq, Repr

/-- The options of an empty command line. -/
def Options.standard : Options := ⟨[], none, false, .untouched, false, .untouched⟩

/-- A word of the command line by its role. -/
inductive Word
  /-- A word that is no option. -/
  | operand (text : Text)
  /-- The word `--`, behind which all words are operands. -/
  | divider
  /-- A switch and the value written together with it; `letter` says that the switch is spelled with
  its letter. -/
  | switch (s : Switch) (value : Option Text) (letter : Bool)
  /-- A word that looks like an option and is none. -/
  | unknown (text : Text)
deriving DecidableEq, Repr

namespace Word

/-- The parts of a word before and behind its first equals sign, if there is one. -/
def splitValue (t : Text) : Text × Option Text :=
  match t.dropWhile (· != '=') with
  | [] => (t, none)
  | _ :: value => (t.takeWhile (· != '='), some value)

/-- Is the word a hyphen and digits, with at most one point before the last of them?  A line feed at
the end does not matter. -/
def isNegativeNumber (t : Text) : Bool :=
  let isDigit (c : Char) : Bool := (Text.digit? c).isSome
  match t with
  | '-' :: cs =>
    let body := if cs.getLast? = some '\n' then cs.dropLast else cs
    match body.dropWhile isDigit with
    | [] => !body.isEmpty
    | '.' :: places => !places.isEmpty && places.all isDigit
    | _ => false
  | _ => false

/-- A word that begins with a hyphen and is no spelling of a switch, alone or with a value. -/
def unspelled (t : Text) : Word :=
  if isNegativeNumber t || t.contains ' ' then operand t else unknown t

/-- A word that begins with two hyphens and may be a shortened switch. -/
def shortened (t : Text) : Except Misuse Word :=
  let (spelling, value) := splitValue t
  match Switch.all.filter fun s => spelling.isPrefixOf s.long.toList with
  | [] => .ok (unspelled t)
  | [s] => .ok (switch s value false)
  | several => .error (.ambiguous t several)

/-- The role of a word, taken by itself. -/
def classify (t : Text) : Except Misuse Word :=
  match t with
  | '-' :: rest =>
    match Switch.ofSpelling? t, splitValue t with
    | some s, _ => .ok (switch s none false)
    | none, (spelling, value) =>
      match rest, value, Switch.ofSpelling? spelling with
      | [], _, _ => .ok (operand t)
      | _, some v, some s => .ok (switch s (some v) (spelling = ['-', 'h']))
      | '-' :: _, _, _ => shortened t
      | 'h' :: tail, _, _ => .ok (switch .help (some tail) true)
      | _, _, _ => .ok (unspelled t)
  | _ => .ok (operand t)

/-- The roles of the words of a command line. -/
def classifyAll : List Text → Except Misuse (List Word)
  | [] => .ok []
  | t :: ts =>
    if t = ['-', '-'] then .ok (divider :: ts.map operand)
    else do
      let w ← classify t
      return w :: (← classifyAll ts)

/-- The text of a word in a run of operands. -/
def text : Word → Text
  | operand t | unknown t => t
  | divider => ['-', '-']
  | switch s _ _ => s.long.toList

end Word

/-- What a command line comes to: options to run with, or a call for help. -/
inductive Request
  | run (options : Options)
  | help
deriving DecidableEq, Repr

namespace Request

/-- The options with the value of a switch. -/
def setValue (o : Options) (value : Text) : Switch → Except Misuse Options
  | .file => .ok { o with file := some value }
  | .extract =>
    match Literal.integer? value with
    | some i => .ok { o with extract := .given i }
    | none => .error (.notInteger value)
  | .logLevel =>
    match Level.ofName? (String.ofList value) with
    | some level => .ok { o with level := .given level }
    | none => .error (.notLevel value)
  | _ => .ok o

/-- The options with a switch that should have a value and is left blank. -/
def setBlank (o : Options) : Switch → Options
  | .file => { o with file := none }
  | .extract => { o with extract := .blank }
  | .logLevel => { o with level := .blank }
  | _ => o

/-- The options with a value written behind the equals sign of a switch. -/
def setWritten (o : Options) (value : Text) (s : Switch) : Except Misuse Options :=
  if value = ['-', '-'] then .ok (setBlank o s) else setValue o value s

/-- The options with a switch that has no value. -/
def setFlag (o : Options) : Switch → Options
  | .backward => { o with backward := true }
  | .tokens => { o with tokens := true }
  | _ => o

/-- A call for help by its letter, with more characters behind it.  The letter once more is the same
call again, and anything else is a value that the call has no use for. -/
def helpRow : Text → Except Misuse Request
  | ['h'] => .ok help
  | 'h' :: rest => helpRow rest
  | value => .error (.needlessValue .help value)

/-- How far the run of operands that are the expressions has come. -/
inductive Run
  | ahead
  | during (words : List Word)
  | closed
deriving DecidableEq, Repr

/-- The options once the run of operands is over; the first divider in it is dropped. -/
def closeRun (o : Options) : Run → Options × Run
  | .ahead => (o, .ahead)
  | .during words =>
    ({ o with expressions := (words.reverse.erase .divider).map Word.text }, .closed)
  | .closed => (o, .closed)

/-- Takes the words from left to right.  `extra` are the unknown options and the words of runs
behind the first one. -/
def ofWords (o : Options) (run : Run) (extra : List Text) : List Word → Except Misuse Request
  | [] => if extra = [] then .ok (.run (closeRun o run).1) else .error (.unrecognized extra)
  | .unknown t :: ws =>
    let (o, run) := closeRun o run
    ofWords o run (extra ++ [t]) ws
  | .switch s (some value) letter :: ws =>
    let (o, run) := closeRun o run
    if s.takesValue then do ofWords (← setWritten o value s) run extra ws
    else if letter then helpRow value
    else .error (.needlessValue s value)
  | .switch s none _ :: ws =>
    let (o, run) := closeRun o run
    if s.takesValue then
      match ws with
      | .operand value :: ws => do ofWords (← setValue o value s) run extra ws
      | _ => .error (.missingValue s)
    else if s = .help then .ok .help
    else ofWords (setFlag o s) run extra ws
  | w :: ws =>
    match run with
    | .ahead => ofWords o (.during [w]) extra ws
    | .during words => ofWords o (.during (w :: words)) extra ws
    | .closed => ofWords o .closed (extra ++ [w.text]) ws

/-- What the words of a command line come to. -/
def ofArguments (args : List Text) : Except Misuse Request := do
  ofWords .standard .ahead [] (← Word.classifyAll args)

end Request

end Reckoner.CommandLine
