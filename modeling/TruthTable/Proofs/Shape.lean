import TruthTable.Formula.Basic
import TruthTable.Proofs.Lexing

/-!
# The shape of a formula

What a formula says apart from the places of its parts: `bare` takes the places away,
and two formulas with the same bare form differ in them only. `lexemes` are the lexemes
that a formula is written with, in order, and `names` the names among them. `preorder` lists
all parts of a formula.

A formula is `WellFormed` when its parts stand where they can be written without further
parentheses: a negation and the right side of a connective take an operand, the left side
of a connective takes no assignment, and only a name is assigned to. It is `Canonical` when
moreover its names are names.
-/

namespace TruthTable

namespace Connective

/-- The kind of the sign that the connective is written with. -/
def kind : Connective → Kind
  | and => .and
  | or => .or
  | implies => .implies

theorem ofKind?_eq_some_iff {kind : Kind} {c : Connective} :
    ofKind? kind = some c ↔ kind = c.kind := by
  constructor
  · intro h
    cases kind <;> cases h <;> rfl
  · intro h
    rw [h]
    cases c <;> rfl

theorem glyph?_kind (c : Connective) : c.kind.glyph? = some c.glyph := by cases c <;> rfl

theorem kind_ne_identifier (c : Connective) : c.kind ≠ .identifier := by cases c <;> decide

end Connective

namespace Formula

/-- The formula with its parts nowhere. -/
def bare : Formula → Formula
  | atom name _ => atom name ⟨0, 0⟩
  | negation operand _ => negation operand.bare ⟨0, 0⟩
  | binary c left right _ => binary c left.bare right.bare ⟨0, 0⟩
  | grouped inner _ => grouped inner.bare ⟨0, 0⟩
  | assignment target value _ => assignment target.bare value.bare ⟨0, 0⟩

/-- The lexemes that the formula is written with. -/
def lexemes : Formula → List Lexeme
  | atom name _ => [.name name]
  | negation operand _ => .sign .tilde :: operand.lexemes
  | binary c left right _ => left.lexemes ++ .sign c.kind :: right.lexemes
  | grouped inner _ => .sign .openParen :: (inner.lexemes ++ [.sign .closeParen])
  | assignment target value _ => target.lexemes ++ .sign .assignment :: value.lexemes

/-- The names in the formula, as often as they occur. -/
def names : Formula → List String
  | atom name _ => [name]
  | negation operand _ => operand.names
  | binary _ left right _ => left.names ++ right.names
  | grouped inner _ => inner.names
  | assignment target value _ => target.names ++ value.names

/-- All parts of the formula, each before the parts in it. -/
def preorder : Formula → List Formula
  | atom name span => [atom name span]
  | negation operand span => negation operand span :: operand.preorder
  | binary c left right span => binary c left right span :: (left.preorder ++ right.preorder)
  | grouped inner span => grouped inner span :: inner.preorder
  | assignment target value span =>
    assignment target value span :: (target.preorder ++ value.preorder)

/-- Whether the formula is an assignment. -/
def isAssignment : Formula → Bool
  | assignment _ _ _ => true
  | _ => false

/-- Whether the formula can stand as an operand without parentheses: it is a name, a
negation or a group. -/
def isOperand : Formula → Bool
  | atom _ _ => true
  | negation _ _ => true
  | grouped _ _ => true
  | binary _ _ _ _ => false
  | assignment _ _ _ => false

/-- Every part of the formula can be written where it stands. -/
def WellFormed : Formula → Prop
  | atom _ _ => True
  | negation operand _ => operand.isOperand = true ∧ operand.WellFormed
  | binary _ left right _ =>
    left.isAssignment = false ∧ right.isOperand = true ∧ left.WellFormed ∧ right.WellFormed
  | grouped inner _ => inner.WellFormed
  | assignment target value _ => target.isAtom = true ∧ target.WellFormed ∧ value.WellFormed

/-- The formula is well formed and its names can be read as names. -/
def Canonical (f : Formula) : Prop := f.WellFormed ∧ ∀ name ∈ f.names, IsName name

/-! ## Shape and places -/

@[simp] theorem isAtom_bare (f : Formula) : f.bare.isAtom = f.isAtom := by cases f <;> rfl

@[simp] theorem isAssignment_bare (f : Formula) : f.bare.isAssignment = f.isAssignment := by
  cases f <;> rfl

@[simp] theorem isOperand_bare (f : Formula) : f.bare.isOperand = f.isOperand := by
  cases f <;> rfl

@[simp] theorem lexemes_bare (f : Formula) : f.bare.lexemes = f.lexemes := by
  induction f <;> simp_all [bare, lexemes]

@[simp] theorem names_bare (f : Formula) : f.bare.names = f.names := by
  induction f <;> simp_all [bare, names]

@[simp] theorem print_bare (f : Formula) : f.bare.print = f.print := by
  induction f <;> simp_all [bare, print]

@[simp] theorem wellFormed_bare (f : Formula) : f.bare.WellFormed ↔ f.WellFormed := by
  induction f <;> simp_all [bare, WellFormed]

@[simp] theorem canonical_bare (f : Formula) : f.bare.Canonical ↔ f.Canonical := by
  rw [Canonical, Canonical, wellFormed_bare, names_bare]

theorem isAtom_of_bare_eq {f g : Formula} (h : f.bare = g.bare) : f.isAtom = g.isAtom := by
  rw [← isAtom_bare f, h, isAtom_bare]

/-! ## Shape and lexemes -/

/-- The names of a formula are those among its lexemes. -/
theorem names_eq (f : Formula) : f.names = Lexeme.names f.lexemes := by
  induction f with
  | atom name span => rfl
  | negation operand span ih =>
    rw [names, ih, lexemes, Lexeme.names_cons_of_ne (by decide)]
  | binary c left right span ihLeft ihRight =>
    rw [names, ihLeft, ihRight, lexemes, Lexeme.names_append,
      Lexeme.names_cons_of_ne c.kind_ne_identifier]
  | grouped inner span ih =>
    rw [names, ih, lexemes, Lexeme.names_cons_of_ne (by decide), Lexeme.names_append,
      Lexeme.names_cons_of_ne (by decide), Lexeme.names_nil, List.append_nil]
  | assignment target value span ihTarget ihValue =>
    rw [names, ihTarget, ihValue, lexemes, Lexeme.names_append,
      Lexeme.names_cons_of_ne (by decide)]

theorem names_ne_nil (f : Formula) : f.names ≠ [] := by
  induction f <;> simp_all [names]

end Formula

end TruthTable
