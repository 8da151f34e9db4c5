import TruthTable.Span
import TruthTable.Text.Quoted

/-!
# Errors

What can stand in the way of a truth table is a `Cause`, and an `Error` is a cause at a
place in the source. The wording is apart from both: a cause has a name, a message of
one line, and for most causes a tip that says what was expected.
-/

namespace TruthTable

/-- Why a text has no truth table. -/
inductive Cause where
  /-- The text ends where an operand is due. -/
  | unexpectedEnd
  /-- A token stands where it cannot go on with the formula, or where another one is due. -/
  | unexpectedToken (text : String)
  /-- A group is not closed where its formula ends. -/
  | unclosedGroup
  /-- A token is read as an operator and is none. -/
  | unknownOperator (text : String)
  /-- A kind of formula that has no truth value. -/
  | noTruthValue (node : String)
  /-- A variable without a place in the valuation. -/
  | unknownVariable (name : String)
  /-- There are `count` variables, and a table may have `limit`. -/
  | tooManyVariables (count limit : Nat)
deriving DecidableEq

namespace Cause

/-- The name by which a diagnostic calls the cause. -/
def name : Cause → String
  | unexpectedEnd => "UnexpectedEndOfInput"
  | unexpectedToken _ => "UnexpectedToken"
  | unclosedGroup => "UnmatchedParenthesis"
  | unknownOperator _ => "UnknownOperator"
  | noTruthValue _ => "UnsupportedNode"
  | unknownVariable _ => "UnknownIdentifier"
  | tooManyVariables _ _ => "TooManyVariables"

/-- The cause in a few words, text of the source quoted. -/
def message : Cause → String
  | unexpectedEnd => "unexpected end of input"
  | unexpectedToken text => "unexpected token: " ++ Text.quote text
  | unclosedGroup => "expected `)` to close parenthesis"
  | unknownOperator text => "unknown operator: " ++ Text.quote text
  | noTruthValue node => "unsupported syntax node: " ++ node
  | unknownVariable name => "identifier " ++ Text.quote name ++ " is not registered"
  | tooManyVariables count limit =>
    "too many variables: " ++ toString count ++ " (max " ++ toString limit ++ ")"

/-- A hint for the writer of the formula, if there is one to give. -/
def tip? : Cause → Option String
  | unexpectedEnd => some "Expression ended early, expected a variable or `(`"
  | unexpectedToken text =>
    some ("Unexpected token: `" ++ text ++ "`, did you miss an operator?")
  | unclosedGroup => some "Expected `)` to close the group"
  | unknownOperator text => some ("`" ++ text ++ "` is not a binary operator")
  | noTruthValue _ => some "Assignments can be parsed but have no truth value"
  | unknownVariable _ => none
  | tooManyVariables count limit =>
    some (toString count ++ " variables would need 2^" ++ toString count ++
      " rows, the limit is " ++ toString limit)

end Cause

/-- A cause at a place in the source. -/
structure Error where
  cause : Cause
  position : Offset
deriving DecidableEq

/-- The message of the cause with the offset of the place. -/
def Error.message (e : Error) : String :=
  e.cause.message ++ " (at offset " ++ toString e.position.toNat ++ ")"

end TruthTable
