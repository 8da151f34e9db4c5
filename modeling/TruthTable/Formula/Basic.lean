import TruthTable.Error
import TruthTable.Token.Basic

/-!
# Formulas

A propositional formula as it was written: groups are kept, and every part knows its
span of the source. An assignment `x = f` can be written like a formula but has no truth
value of its own.

`toString` writes a formula back with one blank around connectives and `=`, and
parentheses where a group stands and nowhere else.
-/

namespace TruthTable

/-- The connectives between two formulas. -/
inductive Connective where
  | and
  | or
  | implies
deriving DecidableEq

namespace Connective

/-- The truth value of two formulas joined by the connective. -/
def apply : Connective → Bool → Bool → Bool
  | and, left, right => left && right
  | or, left, right => left || right
  | implies, left, right => !left || right

/-- The character that the connective is written with. -/
def glyph : Connective → Char
  | and => '∧'
  | or => '∨'
  | implies => '⇒'

/-- The connective that a kind of token stands for. -/
def ofKind? : Kind → Option Connective
  | .and => some and
  | .or => some or
  | .implies => some implies
  | _ => none

/-- The connective that a token stands for; another token is no operator that is known. -/
def ofToken (t : Token) : Except Error Connective :=
  match ofKind? t.kind with
  | some connective => .ok connective
  | none => .error ⟨.unknownOperator t.text, t.span.start⟩

end Connective

/-- A formula with the place of each of its parts. -/
inductive Formula where
  | atom (name : String) (span : Span)
  | negation (operand : Formula) (span : Span)
  | binary (connective : Connective) (left right : Formula) (span : Span)
  | grouped (inner : Formula) (span : Span)
  | assignment (target value : Formula) (span : Span)
deriving DecidableEq

namespace Formula

/-- The place of the formula in its source. -/
def span : Formula → Span
  | atom _ span => span
  | negation _ span => span
  | binary _ _ _ span => span
  | grouped _ span => span
  | assignment _ _ span => span

/-- Whether the formula is a bare name. -/
def isAtom : Formula → Bool
  | atom _ _ => true
  | _ => false

/-- What the outermost part of the formula is called. -/
def nodeName : Formula → String
  | atom _ _ => "Identifier"
  | negation _ _ => "Unary"
  | binary _ _ _ _ => "Binary"
  | grouped _ _ => "Grouped"
  | assignment _ _ _ => "Assignment"

/-- The characters of the formula written out. -/
def print : Formula → List Char
  | atom name _ => name.toList
  | negation operand _ => '~' :: operand.print
  | binary connective left right _ => left.print ++ [' ', connective.glyph, ' '] ++ right.print
  | grouped inner _ => '(' :: inner.print ++ [')']
  | assignment target value _ => target.print ++ [' ', '=', ' '] ++ value.print

instance : ToString Formula := ⟨fun f => String.ofList f.print⟩

end Formula

end TruthTable
