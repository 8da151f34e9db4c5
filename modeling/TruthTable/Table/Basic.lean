import TruthTable.Reading.Formula
import TruthTable.Valuations

/-!
# Truth tables

A truth table has a column for each variable, a last column for the formula, and a row
for each valuation. The header holds the names of the variables and the text of the
formula as it was given.

`Table.build` makes the table of a text. It fails with the error of reading the text,
then with the count of variables if it is above the limit, and then with the error of
evaluating the formula in the first row. Never is there a table with some of its rows.
Room for all rows is made before the first one is evaluated, so a formula with more variables
than there can be room for panics, whatever is wrong with it otherwise.
-/

namespace TruthTable

/-- A valuation and the value of the formula under it. -/
structure Row where
  valuation : Valuation
  result : Bool
deriving DecidableEq

/-- The truth values of all columns, the formula's last. -/
def Row.values (row : Row) : List Bool := row.valuation ++ [row.result]

/-- The truth table of a formula. -/
structure Table where
  names : List String
  expression : String
  rows : List Row
deriving DecidableEq

namespace Table

/-- The names of the variables and the text of the formula. -/
def header (table : Table) : List String := table.names ++ [table.expression]

/-- The values of the formula in the order of the rows. -/
def results (table : Table) : List Bool := table.rows.map Row.result

/-- How many rows there are. -/
def rowCount (table : Table) : Nat := table.rows.length

/-- Whether there are no rows. -/
def isEmpty (table : Table) : Bool := table.rows.isEmpty

/-- The rows of a formula for some valuations, unless it has no value under one of them. -/
def rowsOf (vs : Variables) (f : Formula) (valuations : List Valuation) : Except Error (List Row) :=
  valuations.mapM fun valuation => (f.evaluate vs valuation).map (Row.mk valuation)

/-- The table of a formula that has been read from `source`, if it has at most `limit`
variables. -/
def ofFormula (limit : Nat) (source : String) (vs : Variables) (f : Formula) :
    Call (Except Error Table) :=
  let limit := min limit Valuations.variableLimit
  if vs.count ≤ limit then
    match Valuations.start? vs.count with
    | some first =>
      (reserveRows first.remaining).map fun _ =>
        (rowsOf vs f first.toList).map fun rows => ⟨vs.names, source, rows⟩
    | none => .returns (.error ⟨.tooManyVariables vs.count limit, 0⟩)
  else
    .returns (.error ⟨.tooManyVariables vs.count limit, 0⟩)

/-- The table of the formula that `source` holds, if it has at most `limit` variables. A
limit above what can be enumerated is lowered to that. -/
def build (limit : Nat) (source : String) : Call (Except Error Table) :=
  match parse .empty source with
  | (.ok f, vs) => ofFormula limit source vs f
  | (.error error, _) => .returns (.error error)

/-- The limit if no other is given: all variables that can be enumerated. -/
def defaultLimit : Nat := Valuations.variableLimit

end Table

end TruthTable
