import TruthTable.Formula.Basic
import TruthTable.Reading.Reader

/-!
# Rules of reading

A formula is read by two tables that are indexed by the kind of the next token. A *head
rule* says how a formula begins at such a token; a *tail rule* says how a formula that
has been read goes on there, and with it comes the binding power of the token. A formula
goes on only with tokens that bind tighter than what it is an operand of.

The rules read operands through a reader of formulas that they are given, and which they
can apply only where fewer tokens are pending.
-/

namespace TruthTable

/-- How tight a token binds the formulas beside it, the loosest first. -/
inductive BindingPower where
  | lowest
  | assignment
  | logical
  | unary
deriving DecidableEq

namespace BindingPower

/-- The place of the power in the order, from zero. -/
def rank : BindingPower → Nat
  | lowest => 0
  | assignment => 1
  | logical => 2
  | unary => 3

instance : LT BindingPower := ⟨fun p q => p.rank < q.rank⟩

instance : LE BindingPower := ⟨fun p q => p.rank ≤ q.rank⟩

instance (p q : BindingPower) : Decidable (p < q) :=
  inferInstanceAs (Decidable (p.rank < q.rank))

instance (p q : BindingPower) : Decidable (p ≤ q) :=
  inferInstanceAs (Decidable (p.rank ≤ q.rank))

end BindingPower

/-- A way to read a formula whose tokens bind tighter than a power, wherever fewer than
`limit` tokens are pending. -/
abbrev OperandReader (limit : Nat) :=
  BindingPower → (r : Reader) → r.pending.length < limit → Outcome Formula r.pending.length

/-! ## Heads -/

/-- How a formula begins. -/
inductive HeadRule where
  | name
  | negation
  | group
deriving DecidableEq

namespace HeadRule

/-- A bare name. -/
def readName (r : Reader) : Outcome Formula r.pending.length :=
  (r.expect .identifier).map fun t => .atom t.text t.span

/-- The sign of negation and its operand, which takes no connective. The token is read
before it is looked at. -/
def readNegation (r : Reader) (operand : OperandReader r.pending.length) :
    Outcome Formula r.pending.length :=
  r.advance.andThen fun sign rest shorter =>
    if sign.kind = .tilde then
      (operand .unary rest shorter).map fun f => .negation f (sign.span.through f.span)
    else
      .failed ⟨.unknownOperator sign.text, sign.span.start⟩ rest

/-- A formula of any power in parentheses. -/
def readGroup (r : Reader) (operand : OperandReader r.pending.length) :
    Outcome Formula r.pending.length :=
  (r.expect .openParen).andThen fun opening inside shorter =>
    (operand .lowest inside shorter).andThen fun f rest _ =>
      (rest.expectOr .closeParen ⟨.unclosedGroup, rest.lookahead⟩).map fun closing =>
        .grouped f (opening.span.through closing.span)

/-- Reads the beginning of a formula by the rule. -/
def read (rule : HeadRule) (r : Reader) (operand : OperandReader r.pending.length) :
    Outcome Formula r.pending.length :=
  match rule with
  | name => readName r
  | negation => readNegation r operand
  | group => readGroup r operand

end HeadRule

/-! ## Tails -/

/-- How a formula goes on. -/
inductive TailRule where
  | connective
  | assignment
deriving DecidableEq

namespace TailRule

/-- A connective and its right side, which takes only tokens that bind tighter than the
connective. The token is read before it is looked at. -/
def readConnective (left : Formula) (power : BindingPower) (r : Reader)
    (operand : OperandReader r.pending.length) : Outcome Formula r.pending.length :=
  r.advance.andThen fun sign rest shorter =>
    match Connective.ofToken sign with
    | .ok joint =>
      (operand power rest shorter).map fun right =>
        .binary joint left right (left.span.through right.span)
    | .error error => .failed error rest

/-- The sign of assignment and a value of any power, so that assignments group to the right. -/
def readAssignment (left : Formula) (r : Reader) (operand : OperandReader r.pending.length) :
    Outcome Formula r.pending.length :=
  (r.expect .assignment).andThen fun _ rest shorter =>
    (operand .lowest rest shorter).map fun value =>
      .assignment left value (left.span.through value.span)

/-- Reads on after `left` by the rule, at the binding power of its token. -/
def read (rule : TailRule) (left : Formula) (power : BindingPower) (r : Reader)
    (operand : OperandReader r.pending.length) : Outcome Formula r.pending.length :=
  match rule with
  | connective => readConnective left power r operand
  | assignment => readAssignment left r operand

end TailRule

/-! ## Tables -/

/-- The head rule, and the tail rule with its binding power, of each kind of token that has
one. -/
structure Rules where
  head? : Kind → Option HeadRule
  tail? : Kind → Option (BindingPower × TailRule)

namespace Rules

/-- No rules. -/
def empty : Rules := ⟨fun _ => none, fun _ => none⟩

/-- The rules with a head rule for `kind` in place of the one it had. -/
def withHead (rules : Rules) (kind : Kind) (rule : HeadRule) : Rules :=
  { rules with head? := fun k => if k = kind then some rule else rules.head? k }

/-- The rules with a tail rule for `kind` in place of the one it had. -/
def withTail (rules : Rules) (kind : Kind) (power : BindingPower) (rule : TailRule) : Rules :=
  { rules with tail? := fun k => if k = kind then some (power, rule) else rules.tail? k }

/-- The rules of propositional formulas added to others. The connectives share one power, so
that mixed ones group to the left. -/
def withStandard (rules : Rules) : Rules :=
  rules
    |>.withTail .assignment .assignment .assignment
    |>.withTail .and .logical .connective
    |>.withTail .or .logical .connective
    |>.withTail .implies .logical .connective
    |>.withHead .identifier .name
    |>.withHead .tilde .negation
    |>.withHead .openParen .group

/-- The rules of propositional formulas. -/
def standard : Rules := empty.withStandard

/-- The binding power of a kind of token; one without a tail rule has the lowest. -/
def power (rules : Rules) (kind : Kind) : BindingPower :=
  match rules.tail? kind with
  | some (power, _) => power
  | none => .lowest

/-- The kinds with a head rule. -/
def headKinds (rules : Rules) : List Kind := Kind.all.filter fun kind => (rules.head? kind).isSome

/-- The kinds with a tail rule. -/
def tailKinds (rules : Rules) : List Kind := Kind.all.filter fun kind => (rules.tail? kind).isSome

end Rules

end TruthTable
