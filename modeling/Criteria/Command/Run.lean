/-
A run of the command, as a function from the arguments and the bytes of standard input to a
report. A criterion on the command line is answered at once. Without one the command shows a
prompt, takes the first line of the input, and answers it as it would have answered the line on
the command line, after echoing it.

The arguments are read by a parser that either finds an invocation or ends the run with a report of
its own. The command is a function of that parser (`runWith`), and `parse` is the one it is run with
here.
-/
import Criteria.Command.Invocation
import Criteria.Command.Report
import Criteria.Conversion

set_option autoImplicit false

namespace Criteria.Command

namespace Invocation

/-- The options of an invocation. -/
def options (inv : Invocation) : Options := ⟨!inv.compact, !inv.keepQuotes⟩

/-! ## Answering a criterion -/

/-- The listing of the tokens of a criterion. -/
def listTokens (inv : Invocation) (criterion : String) : Report where
  stdout :=
    String.ofList ((Json.arr ((inv.options.tokens criterion).map Token.toJson)).render .indented)
      ++ "\n"

/-- The conversion of a criterion. -/
def convert (inv : Invocation) (criterion : String) : Report :=
  let tokenized := Event.tokenized (inv.options.tokens criterion)
  match inv.options.convert criterion with
  | .ok json => {
      stdout := "Result: " ++ json ++ "\n"
      log := Event.logged inv.verbosity [tokenized, .converted json.utf8ByteSize] }
  | .error e => {
      code := 1
      stdout := "Error converting criteria string.\n"
      log := Event.logged inv.verbosity [tokenized, .failed e criterion]
      complaint := e.message ++ "\n" }

/-- The answer to a criterion. One that is blank has an empty result. -/
def answer (inv : Invocation) (criterion : String) : Report :=
  if inv.tokens then inv.listTokens criterion
  else if Text.isBlankText criterion.toList then { stdout := "Result: \n" }
  else inv.convert criterion

/-! ## Asking for a criterion -/

/-- The bytes through the first line feed. -/
def firstLine : List UInt8 → List UInt8
  | [] => []
  | b :: bs => if b = 10 then [b] else b :: firstLine bs

/-- Whether a character belongs to the end of a line. -/
def isLineEnd (c : Char) : Bool := c == '\r' || c == '\n'

/-- The first line of the input without its line end, if its bytes are UTF-8. -/
def readLine? (input : List UInt8) : Option String :=
  (String.fromUTF8? ⟨(firstLine input).toArray⟩).map fun line =>
    String.ofList (Text.trimEnd isLineEnd line.toList)

/-- What is shown before a criterion is read. -/
def prompt : String := "Criteria Syntax Language To JSON Logic\nEnter a criteria string:"

/-- The answer to the first line of the input. -/
def answerLine (inv : Invocation) (input : List UInt8) : Report :=
  match readLine? input with
  | some line => (inv.answer line).after (line ++ "\n")
  | none => {
      code := 1
      log := [.unreadable]
      complaint := "Cannot read input: " ++ Event.invalidText ++ "\n" }

/-- The report of an invocation on an input. -/
def run (inv : Invocation) (input : List UInt8) : Report :=
  match inv.criterion with
  | some criterion => inv.answer criterion
  | none => (inv.answerLine input).after prompt

end Invocation

/-! ## Reading the arguments -/

/-- The report on a request for the version. -/
def versionReport : Report where
  stdout := "criteria-jsonlogic 0.1.0\n"

/-- The report on a request for help. Layout and wording are left to the parser; this text stands for
them and lists the flags that there are. -/
def helpReport : Report where
  stdout := "Convert a criteria expression into JSONLogic\n\n" ++
    "Usage: csl2jl [OPTIONS] [CRITERIA]\n\n" ++
    "  --compact      Print JSON on a single line\n" ++
    "  --tokens       Print the token list instead of converting\n" ++
    "  --keep-quotes  Do not strip enclosing double quotes from the input\n" ++
    "  -v, --verbose  Increase log verbosity\n" ++
    "  -h, --help     Print help\n" ++
    "  -V, --version  Print version\n"

/-- The report on a command line that asks for nothing that can be done. What a parser says about
such a line is left to it, and the word `usage` stands for that. -/
def misuseReport : Report where
  code := 2
  complaint := "usage"

/-- The invocation that the arguments ask for, or the report that ends the run. -/
def parse (args : List String) : Except Report Invocation :=
  match Request.ofArgs args with
  | .convert inv => .ok inv
  | .version => .error versionReport
  | .help => .error helpReport
  | .misuse => .error misuseReport

/-! ## The whole run -/

/-- The report of the command on its arguments and its input, with a parser of arguments. -/
def runWith (parser : List String → Except Report Invocation) (args : List String)
    (input : List UInt8) : Report :=
  match parser args with
  | .ok inv => inv.run input
  | .error r => r

/-- The report of the command on its arguments and its input. -/
def run (args : List String) (input : List UInt8) : Report := runWith parse args input

end Criteria.Command
