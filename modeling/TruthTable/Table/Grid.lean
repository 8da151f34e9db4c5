import TruthTable.Table.Basic
import TruthTable.Text.Blank

/-!
# Tables as text

A table is printed as a grid. A column is as wide as the longest of its cells, counted
in characters; cells begin at the left of their column, columns stand apart by a bar
between blanks, and blanks at the end of a line are cut. A rule under the header has a
cross below every bar.
-/

namespace TruthTable

/-- Cells of text in rows below a header. -/
structure Grid where
  header : List String
  rows : List (List String)
deriving DecidableEq

namespace Grid

/-- The header and the rows. -/
def cells (grid : Grid) : List (List String) := grid.header :: grid.rows

/-- The lengths of the longest cells of each column. -/
def widths (grid : Grid) : List Nat :=
  grid.rows.foldl (fun widths row => List.zipWith max widths (row.map String.length))
    (grid.header.map String.length)

/-- One line of cells, each filled up to the width of its column. -/
def line (widths : List Nat) (row : List String) : List Char :=
  Text.trimEnd <| List.intercalate [' ', '|', ' '] <|
    List.zipWith (fun width cell => cell.toList.rightpad width ' ') widths row

/-- The line under the header. -/
def rule (widths : List Nat) : List Char :=
  List.intercalate ['-', '+', '-'] (widths.map (List.replicate · '-'))

/-- The lines of the grid. -/
def lines (grid : Grid) : List (List Char) :=
  line grid.widths grid.header :: rule grid.widths :: grid.rows.map (line grid.widths)

/-- The grid as text, each line ended by a line feed. -/
def text (grid : Grid) : String :=
  String.join (grid.lines.map fun line => String.ofList line ++ "\n")

end Grid

/-- How a truth value is written in a cell. -/
def truthWord (value : Bool) : String := if value then "true" else "false"

namespace Table

/-- The table as a grid of words. -/
def grid (table : Table) : Grid :=
  ⟨table.header, table.rows.map fun row => row.values.map truthWord⟩

instance : ToString Table := ⟨fun table => table.grid.text⟩

end Table

end TruthTable
