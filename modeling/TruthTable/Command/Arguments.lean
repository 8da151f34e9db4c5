/-!
# Command line arguments

The arguments of the command are read from left to right. An argument with a leading
hyphen names an option, `--` ends the options, and everything else is an expression; a
lone hyphen is an expression too. An option takes its value from behind an equals sign
or from the next argument, which must not look like an option, and it may be given once.

What is asked for first is done: a version or help option that comes before a fault in
the arguments hides it, and a fault before it hides the option.
-/

namespace TruthTable.Command

/-- How much a run says about itself beside its results. -/
inductive LogLevel where
  | off
  | error
  | warn
  | info
  | debug
  | trace
deriving DecidableEq

/-- The levels by name. -/
def LogLevel.named : List (String × LogLevel) :=
  [("off", .off), ("error", .error), ("warn", .warn), ("info", .info), ("debug", .debug),
    ("trace", .trace)]

/-- The level of a name in letters of either case. -/
def LogLevel.ofName? (name : String) : Option LogLevel := named.lookup (name.map Char.toLower)

/-- The largest number that is accepted, the greatest word of 64 bits. -/
def largestNumber : Nat := UInt64.size - 1

/-- The number that decimal digits write, if there are any and nothing else. -/
def ofDigits? (digits : List Char) : Option Nat :=
  if digits ≠ [] ∧ digits.all Char.isDigit then
    some (digits.foldl (fun n c => 10 * n + (c.toNat - '0'.toNat)) 0)
  else
    none

/-- The number that an argument writes in decimal digits, a plus sign before them or not. -/
def number? (argument : String) : Option Nat :=
  let digits := match argument.toList with
    | '+' :: digits => digits
    | digits => digits
  (ofDigits? digits).filter (· ≤ largestNumber)

/-- What the options ask for, and the expressions in their order. -/
structure Options where
  variableLimit? : Option Nat
  logLevel? : Option LogLevel
  expressions : List String
deriving DecidableEq

namespace Options

/-- Neither options nor expressions. -/
def none : Options := ⟨.none, .none, []⟩

/-- The limit on variables if no other is given. -/
def defaultVariableLimit : Nat := 20

/-- The limit on variables. -/
def variableLimit (options : Options) : Nat := options.variableLimit?.getD defaultVariableLimit

/-- The options with more expressions at the end. -/
def withExpressions (options : Options) (expressions : List String) : Options :=
  { options with expressions := options.expressions ++ expressions }

end Options

/-- Why arguments cannot be followed. -/
inductive UsageError where
  | unknownOption (argument : String)
  | missingValue (option : String)
  | invalidValue (option value : String)
  | repeatedOption (option : String)
deriving DecidableEq

/-- What is wrong with the arguments in a line. -/
def UsageError.message : UsageError → String
  | unknownOption argument => "error: unexpected argument '" ++ argument ++ "' found"
  | missingValue option => "error: a value is required for '" ++ option ++ "' but none was supplied"
  | invalidValue option value => "error: invalid value '" ++ value ++ "' for '" ++ option ++ "'"
  | repeatedOption option => "error: the argument '" ++ option ++ "' cannot be used multiple times"

/-- What the arguments ask for. -/
inductive Request where
  | version
  | help
  | tabulate (options : Options)
deriving DecidableEq

/-- What one argument is, before options are ended. -/
inductive Argument where
  | expression (text : String)
  | endOfOptions
  | variableLimit (value? : Option String)
  | logLevel (value? : Option String)
  | version
  | help
  | unknown (text : String)
deriving DecidableEq

namespace Argument

/-- Whether the text begins with a hyphen and has more than that. -/
def looksLikeOption (text : String) : Bool :=
  match text.toList with
  | '-' :: _ :: _ => true
  | _ => false

/-- The option of a long name and the value behind its equals sign. -/
def ofLongOption (text name : String) (value? : Option String) : Argument :=
  match name, value? with
  | "max-variables", _ => variableLimit value?
  | "log-level", _ => logLevel value?
  | "version", none => version
  | "help", none => help
  | _, _ => unknown text

/-- What an argument is by its form. -/
def ofText (text : String) : Argument :=
  match text.toList with
  | ['-'] => expression text
  | ['-', '-'] => endOfOptions
  | '-' :: '-' :: long =>
    let name := String.ofList (long.takeWhile (· != '='))
    match long.dropWhile (· != '=') with
    | _ :: value => ofLongOption text name (some (String.ofList value))
    | [] => ofLongOption text name none
  | '-' :: 'V' :: _ => version
  | '-' :: 'h' :: _ => help
  | '-' :: _ => unknown text
  | _ => expression text

end Argument

/-- The value of an option, behind its equals sign or from the arguments that follow, and
the arguments after it. -/
def takeValue (option : String) (value? : Option String) (rest : List String) :
    Except UsageError (String × List String) :=
  match value?, rest with
  | some value, _ => .ok (value, rest)
  | none, value :: rest' =>
    if Argument.looksLikeOption value then .error (.missingValue option) else .ok (value, rest')
  | none, [] => .error (.missingValue option)

theorem takeValue_length_le {option value : String} {value? : Option String}
    {rest rest' : List String} (h : takeValue option value? rest = .ok (value, rest')) :
    rest'.length ≤ rest.length := by
  unfold takeValue at h
  split at h
  · cases h
    exact Nat.le_refl _
  · split at h <;> cases h
    exact Nat.le_succ _
  · cases h

/-- The options with the limit on variables that `value` writes. -/
def Options.withVariableLimit (options : Options) (value : String) : Except UsageError Options :=
  match options.variableLimit?, number? value with
  | some _, _ => .error (.repeatedOption "--max-variables")
  | .none, some limit => .ok { options with variableLimit? := some limit }
  | .none, .none => .error (.invalidValue "--max-variables" value)

/-- The options with the level that `value` names. -/
def Options.withLogLevel (options : Options) (value : String) : Except UsageError Options :=
  match options.logLevel?, LogLevel.ofName? value with
  | some _, _ => .error (.repeatedOption "--log-level")
  | .none, some level => .ok { options with logLevel? := some level }
  | .none, .none => .error (.invalidValue "--log-level" value)

/-- Reads the arguments that follow those which `options` come from. -/
def readArguments (options : Options) : List String → Except UsageError Request
  | [] => .ok (.tabulate options)
  | argument :: rest =>
    match Argument.ofText argument with
    | .expression text => readArguments (options.withExpressions [text]) rest
    | .endOfOptions => .ok (.tabulate (options.withExpressions rest))
    | .version => .ok .version
    | .help => .ok .help
    | .unknown text => .error (.unknownOption text)
    | .variableLimit value? =>
      match h : takeValue "--max-variables" value? rest with
      | .error error => .error error
      | .ok (value, rest') =>
        have := takeValue_length_le h
        match options.withVariableLimit value with
        | .error error => .error error
        | .ok options' => readArguments options' rest'
    | .logLevel value? =>
      match h : takeValue "--log-level" value? rest with
      | .error error => .error error
      | .ok (value, rest') =>
        have := takeValue_length_le h
        match options.withLogLevel value with
        | .error error => .error error
        | .ok options' => readArguments options' rest'
termination_by arguments => arguments.length

/-- What the arguments of the command ask for. -/
def Request.ofArguments (arguments : List String) : Except UsageError Request :=
  readArguments .none arguments

end TruthTable.Command
