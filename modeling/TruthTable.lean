import TruthTable.Main
import TruthTable.Reading.Progress
import TruthTable.Proofs.Lexing
import TruthTable.Proofs.Shape
import TruthTable.Proofs.Reading.Relation
import TruthTable.Proofs.Reading.Precedence
import TruthTable.Proofs.Grammar
import TruthTable.Proofs.Scan
import TruthTable.Proofs.Names
import TruthTable.Proofs.Printing
import TruthTable.Proofs.Valuations
import TruthTable.Proofs.Evaluation
import TruthTable.Proofs.Table
import TruthTable.Proofs.Tiling
import TruthTable.Proofs.Substitution
import TruthTable.Proofs.Correspondence
import TruthTable.Proofs.Renaming
import TruthTable.Proofs.Slices
import TruthTable.Proofs.Spans
import TruthTable.Proofs.ErrorPlace
import TruthTable.Proofs.Registration
import TruthTable.Proofs.Reading.Nesting
import TruthTable.Proofs.Rewinding
import TruthTable.Proofs.Caret
import TruthTable.Proofs.Slots
import TruthTable.Proofs.Input
import TruthTable.Proofs.FirstFault
import TruthTable.Proofs.Batches
import TruthTable.Proofs.Cursor
import TruthTable.Proofs.RowOrder
import TruthTable.Proofs.CursorPaths
import TruthTable.Proofs.Boundaries
import TruthTable.Proofs.Columns
import TruthTable.Proofs.Grid
