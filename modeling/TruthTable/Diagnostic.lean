import TruthTable.Error
import TruthTable.Text.Column

/-!
# Diagnostics

An error is shown above the source text with a caret under the character where it lies:
a line with the name of the cause and its tip, the source behind a margin, and a row of
dashes as long as the column of the error.
-/

namespace TruthTable.Error

/-- The column of the error in the source. -/
def column (e : Error) (source : String) : Nat := Text.column source.toList e.position.toNat

/-- The name of the cause, and its tip in brackets. -/
def headline (e : Error) : String :=
  match e.cause.tip? with
  | none => "Error: " ++ e.cause.name
  | some tip => "Error: " ++ e.cause.name ++ " (" ++ tip ++ ")"

/-- The row that points at a column: as many dashes, then the caret. -/
def caret (column : Nat) : String := String.ofList (List.replicate column '-' ++ ['^'])

/-- The headline, the source, and the caret under the place of the error. -/
def render (e : Error) (source : String) : String :=
  e.headline ++ "\n  |\n1 | " ++ source ++ "\n  | " ++ caret (e.column source) ++ "\n"

end TruthTable.Error
