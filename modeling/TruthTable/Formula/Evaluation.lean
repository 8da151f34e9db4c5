import TruthTable.Error
import TruthTable.Formula.Basic
import TruthTable.Variables

/-!
# The value of a formula

A valuation lists the truth values of variables by slot. A formula is evaluated from
left to right, both sides of every connective, and the first part without a value
decides the error: an assignment has none, and neither has a name without a slot or with
a slot beyond the end of the valuation.
-/

namespace TruthTable

/-- Truth values by slot. -/
abbrev Valuation := List Bool

/-- The value that a valuation gives to a name through its slot. -/
def Variables.value? (vs : Variables) (valuation : Valuation) (name : String) : Option Bool :=
  (vs.slot? name).bind (valuation[·]?)

namespace Formula

/-- The truth value of the formula under a valuation of the variables. -/
def evaluate (vs : Variables) (valuation : Valuation) : Formula → Except Error Bool
  | atom name span =>
    match vs.value? valuation name with
    | some value => .ok value
    | none => .error ⟨.unknownVariable name, span.start⟩
  | negation operand _ => do
    return !(← operand.evaluate vs valuation)
  | binary connective left right _ => do
    let leftValue ← left.evaluate vs valuation
    let rightValue ← right.evaluate vs valuation
    return connective.apply leftValue rightValue
  | grouped inner _ => inner.evaluate vs valuation
  | f@(assignment _ _ span) => .error ⟨.noTruthValue f.nodeName, span.start⟩

end Formula

end TruthTable
