import TruthTable.Reading.Rules

/-!
# Reading formulas

`Rules.read` reads a formula whose tokens bind tighter than a given power: its head by
the rule of the next token, then tails as long as the next token binds tighter than that
power. The sign of assignment goes on with a bare name only; after anything else it is
left pending.

`parse` reads a whole source text by the standard rules. All its tokens have to be used
up.
-/

namespace TruthTable

namespace Rules

/-- The tail rule by which `left`, read at `power`, goes on, and the power of its token. -/
def tailAt? (rules : Rules) (power : BindingPower) (left : Formula) (r : Reader) :
    Option (BindingPower × TailRule) :=
  match r.peek? with
  | none => none
  | some t =>
    match rules.tail? t.kind with
    | none => none
    | some (tighter, rule) =>
      if power < tighter ∧ (t.kind = .assignment → left.isAtom) then
        some (tighter, rule)
      else
        none

/-- Reads on after `left` as long as the next token binds tighter than `power`. -/
def readTails (rules : Rules) (power : BindingPower) (left : Formula) (r : Reader)
    (operand : OperandReader r.pending.length) : Outcome Formula (r.pending.length + 1) :=
  match rules.tailAt? power left r with
  | none => .done left r (Nat.lt_succ_self _)
  | some (tighter, rule) =>
    match rule.read left tighter r operand with
    | .failed error rest => .failed error rest
    | .done longer rest shorter =>
      (rules.readTails power longer rest fun p s h => operand p s (Nat.lt_trans h shorter)).widen
        (Nat.le_succ_of_le shorter)
termination_by r.pending.length

/-- Reads a formula whose tokens bind tighter than `power`, its operands by `operand`. -/
def readStep (rules : Rules) (power : BindingPower) (r : Reader)
    (operand : OperandReader r.pending.length) : Outcome Formula r.pending.length :=
  match r.peek?.bind fun t => rules.head? t.kind with
  | none => .failed r.unexpected r
  | some rule =>
    match rule.read r operand with
    | .failed error rest => .failed error rest
    | .done left rest shorter =>
      (rules.readTails power left rest fun p s h => operand p s (Nat.lt_trans h shorter)).widen
        shorter

/-- Reads a formula whose tokens bind tighter than `power`. -/
def read (rules : Rules) (power : BindingPower) (r : Reader) : Outcome Formula r.pending.length :=
  rules.readStep power r fun p s _ => rules.read p s
termination_by r.pending.length

/-- Reads the beginning of a formula by one rule, its operands by the tables. -/
def readHead (rules : Rules) (rule : HeadRule) (r : Reader) : Outcome Formula r.pending.length :=
  rule.read r fun p s _ => rules.read p s

/-- Reads on after `left` by one rule at a binding power, its operands by the tables. -/
def readTail (rules : Rules) (rule : TailRule) (left : Formula) (power : BindingPower)
    (r : Reader) : Outcome Formula r.pending.length :=
  rule.read left power r fun p s _ => rules.read p s

end Rules

/-- The formula that a source text holds, or what is wrong with it, and the variables that
were read. The given variables are emptied first. -/
def parse (vs : Variables) (source : String) : Except Error Formula × Variables :=
  match Rules.standard.read .lowest (Reader.start vs source) with
  | .failed error rest => (.error error, rest.seen)
  | .done f rest _ =>
    match rest.pending with
    | [] => (.ok f, rest.seen)
    | _ :: _ => (.error rest.unexpected, rest.seen)

end TruthTable
