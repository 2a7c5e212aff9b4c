/-!
# Texts of the command line

The usage line, the help text and the messages of a misused command line.
-/

namespace Reckoner.CommandLine

/-- How the program is called. -/
def usage : String :=
  "usage: main.py [-h] [--file FILE] [--backward] [--extract POS] [--tokens]\n" ++
  "               [--log-level \x7bDEBUG,INFO,WARNING,ERROR\x7d]\n" ++
  "               [expressions ...]\n"

/-- What the program does and what its arguments mean. -/
def help : String :=
  usage ++ "\n" ++
  "Evaluate arithmetic expressions\n" ++
  "\n" ++
  "positional arguments:\n" ++
  "  expressions           Expressions to evaluate\n" ++
  "\n" ++
  "options:\n" ++
  "  -h, --help            show this help message and exit\n" ++
  "  --file FILE           File with one expression per line\n" ++
  "  --backward            Parse from the end of each expression toward the start\n" ++
  "  --extract POS         Extract and evaluate the expression ending at POS in\n" ++
  "                        the first argument\n" ++
  "  --tokens              Print the ordered token sequence instead of the result\n" ++
  "  --log-level \x7bDEBUG,INFO,WARNING,ERROR\x7d\n"

end Reckoner.CommandLine
