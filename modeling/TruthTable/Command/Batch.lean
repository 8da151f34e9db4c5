import TruthTable.Command.Arguments
import TruthTable.Diagnostic
import TruthTable.Table.Grid

/-!
# Batches of expressions

The command makes the table of one expression after the other. Tables go to the output
with an empty line before each expression but the first, diagnostics go to the error
output, and an expression that fails does not keep the others from being done. An expression
that panics does: the command ends there, with what has been written so far. The expressions
are arguments, or the lines of the input where there are none.

Main statements: `outputOf_append` and `diagnosticsOf_append`, what a longer batch writes
is put together from what its parts write.
-/

namespace TruthTable.Command

/-- The line whose characters are `reversed`, the last first, when a line feed ends it: a
carriage return before the line feed goes with it. -/
def endedLine (reversed : List Char) : String :=
  match reversed with
  | '\r' :: line => String.ofList line.reverse
  | line => String.ofList line.reverse

/-- The lines of a text that goes on after the characters `reversed`, the last first. What
follows the last line feed is a line if it is not empty. -/
def linesAfter (reversed : List Char) : List Char → List String
  | [] => if reversed.isEmpty then [] else [String.ofList reversed.reverse]
  | c :: cs =>
    if c = '\n' then endedLine reversed :: linesAfter [] cs else linesAfter (c :: reversed) cs

/-- The expressions that an input holds: its lines, without the blank ones. -/
def expressionsOf (input : String) : List String :=
  (linesAfter [] input.toList).filter fun line => !Text.isBlankLine line

/-- What the command has to say about one expression: its table or a diagnostic. -/
abbrev Answer := Except String String

/-- What is said of an expression from which this has been built. -/
def Answer.of (expression : String) : Except Error Table → Answer
  | .ok table => .ok (toString table)
  | .error error => .error (error.render expression)

/-- The table of an expression as text, or the diagnostic if it has none. -/
def answer (limit : Nat) (expression : String) : Call Answer :=
  (Table.build limit expression).map (Answer.of expression)

/-- What answers write to the output. -/
def outputOf (answers : List Answer) : String :=
  "\n".intercalate <| answers.map fun
    | .ok table => table
    | .error _ => ""

/-- What answers write to the error output. -/
def diagnosticsOf (answers : List Answer) : String :=
  String.join <| answers.map fun
    | .ok _ => ""
    | .error diagnostic => diagnostic

/-- What answers have written to the output when one more expression is taken. -/
def outputBefore (answers : List Answer) : String :=
  if answers.isEmpty then "" else outputOf answers ++ "\n"

/-- How many answers are diagnostics. -/
def failuresOf (answers : List Answer) : Nat := answers.countP fun answer => !answer.isOk

/-- All that a run of the command shows; the failure is its last word if it has failed. What is
said of a panic itself is not part of it. -/
structure Report where
  exitCode : UInt32
  stdout : String
  stderr : String
  failure? : Option String
deriving DecidableEq

/-- The exit code of a run whose arguments cannot be followed. -/
def usageErrorCode : UInt32 := 2

/-- The exit code of a run that panics. -/
def panicCode : UInt32 := 101

namespace Report

/-- The report of a run that only says something. -/
def saying (text : String) : Report := ⟨0, text, "", none⟩

/-- The report of a batch of expressions with these answers. -/
def ofAnswers (answers : List Answer) : Report :=
  match failuresOf answers with
  | 0 => ⟨0, outputOf answers, diagnosticsOf answers, none⟩
  | failed =>
    ⟨1, outputOf answers, diagnosticsOf answers,
      some (toString failed ++ " of " ++ toString answers.length ++ " expression(s) failed")⟩

/-- The report of a batch that has panicked after these answers. No failures are told then. -/
def ofPanic (answers : List Answer) : Report :=
  ⟨panicCode, outputBefore answers, diagnosticsOf answers, none⟩

/-- The report of a batch of expressions. -/
def ofBatch (limit : Nat) (expressions : List String) : Report :=
  let calls := expressions.map (answer limit)
  if calls.any Call.isPanic then ofPanic (Call.answersOf calls) else ofAnswers (Call.answersOf calls)

end Report

/-- The name and version of the command. -/
def versionLine : String := "logicker 0.1.0\n"

/-- How the command is used. -/
def usage : String :=
  "Prints the truth table of propositional logic expressions\n\n" ++
  "Usage: logicker [OPTIONS] [EXPRESSIONS]...\n\n" ++
  "Arguments:\n" ++
  "  [EXPRESSIONS]...  Expressions to tabulate. Read line by line from stdin when omitted\n\n" ++
  "Options:\n" ++
  "      --max-variables <MAX_VARIABLES>  Reject expressions with more distinct variables" ++
  " than this [default: 20]\n" ++
  "      --log-level <LOG_LEVEL>          Log level (off, error, warn, info, debug, trace)" ++
  " [default: WARN]\n" ++
  "  -h, --help                           Print help\n" ++
  "  -V, --version                        Print version\n"

namespace Request

/-- Whether the expressions are to be read from the input. -/
def needsInput : Request → Bool
  | tabulate options => options.expressions.isEmpty
  | _ => false

/-- The report of a run that asks for this; the input is of use only if it is needed. -/
def report (request : Request) (input : String) : Report :=
  match request with
  | version => .saying versionLine
  | help => .saying usage
  | tabulate options =>
    if options.expressions.isEmpty then
      .ofBatch options.variableLimit (expressionsOf input)
    else
      .ofBatch options.variableLimit options.expressions

end Request

/-- The report of the command with these arguments and this input, where `read` says what
arguments ask for. -/
def runWith (read : List String → Except UsageError Request) (arguments : List String)
    (input : String) : Except UsageError Report :=
  (read arguments).map (·.report input)

/-- The report of the command with these arguments and this input. -/
def run (arguments : List String) (input : String) : Except UsageError Report :=
  runWith Request.ofArguments arguments input

/-! ## Longer batches -/

/-- The output of two batches in a row is theirs with an empty line between. -/
theorem outputOf_append {xs ys : List Answer} (hxs : xs ≠ []) (hys : ys ≠ []) :
    outputOf (xs ++ ys) = outputOf xs ++ "\n" ++ outputOf ys := by
  simp only [outputOf, List.map_append]
  exact String.intercalate_append_of_ne_nil (by simpa using hxs) (by simpa using hys)

theorem diagnosticsOf_append (xs ys : List Answer) :
    diagnosticsOf (xs ++ ys) = diagnosticsOf xs ++ diagnosticsOf ys := by
  simp [diagnosticsOf]

theorem failuresOf_append (xs ys : List Answer) :
    failuresOf (xs ++ ys) = failuresOf xs + failuresOf ys := by
  simp [failuresOf]

end TruthTable.Command
