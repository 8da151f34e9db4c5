import TruthTable.Proofs.Grammar

/-!
# Reading as one scan

Whether a source reads, and what is wrong with it if it does not, can be told by one scan
from the left with a depth of parentheses. What may stand at a place depends on the two
tokens before it and on the depth there (`legal`); the first place where something illegal
stands, the end of the source included, is where reading fails, and `fault` is its error.

The scan is written with the tokens that are behind it, the last one first. A formula that
is read, whatever it is an operand of, takes the scan from one legal place to another at
the same depth (`Ended`), and one that fails fails where the scan does
(`Rules.read_scans`). The error of a missing parenthesis needs no context for that: it
arises inside a group, where the depth is not zero.

Main statement: `parse_error_iff_fault`.
-/

namespace TruthTable

/-! ## What may stand where -/

namespace Kind

/-- An operand is due after a token of this kind. -/
def awaitsOperand : Kind → Bool
  | identifier | closeParen => false
  | tilde | openParen | and | or | implies | assignment => true

/-- An operand can begin with a token of this kind. -/
def beginsOperand : Kind → Bool
  | identifier | tilde | openParen => true
  | closeParen | and | or | implies | assignment => false

/-- The kind is that of a connective. -/
def isConnective : Kind → Bool
  | and | or | implies => true
  | identifier | tilde | openParen | closeParen | assignment => false

theorem isConnective_iff {kind : Kind} :
    kind.isConnective = true ↔ ∃ c : Connective, kind = c.kind := by
  constructor
  · intro h
    cases kind with
    | and => exact ⟨.and, rfl⟩
    | or => exact ⟨.or, rfl⟩
    | implies => exact ⟨.implies, rfl⟩
    | _ => cases h
  · intro h
    obtain ⟨c, rfl⟩ := h
    cases c <;> rfl

end Kind

/-- An operand is due after the tokens `before`, the last one first. -/
def operandDue : List Token → Bool
  | [] => true
  | t :: _ => t.kind.awaitsOperand

/-- A whole formula may begin after the tokens `before`: they are none, or the last of them
opens a group or is the sign of assignment. -/
def formulaDue : List Token → Bool
  | [] => true
  | t :: _ => t.kind = .openParen || t.kind = .assignment

/-- The tokens `before` end in a name that a formula begins with. -/
def assignable : List Token → Bool
  | [] => false
  | t :: before => t.kind = .identifier && formulaDue before

/-- How many groups are open after the tokens `before`. -/
def depth : List Token → Nat
  | [] => 0
  | t :: before =>
    match t.kind with
    | .openParen => depth before + 1
    | .closeParen => depth before - 1
    | _ => depth before

/-- Whether the token `next`, or the end of the source, may stand after the tokens `before`. -/
def legal (before : List Token) (next : Option Token) : Bool :=
  match next with
  | none => !operandDue before && depth before = 0
  | some t =>
    if operandDue before then
      t.kind.beginsOperand
    else
      t.kind.isConnective || (t.kind = .closeParen && 0 < depth before) ||
        (t.kind = .assignment && assignable before)

/-- Where the token `next` starts, or where the source ends, both modulo `2 ^ 32` as all offsets. -/
def startOf (source : String) : Option Token → Offset
  | some t => t.span.start
  | none => UInt32.ofNat source.utf8ByteSize

/-- What is wrong with the token `next`, or the end of the source, where an operand is due or no
group is open. -/
def unexpectedCause : Option Token → Cause
  | some t => .unexpectedToken t.text
  | none => .unexpectedEnd

/-- The error of what stands after the tokens `before` where it is not legal. -/
def fault (source : String) (before : List Token) (next : Option Token) : Error :=
  if operandDue before = false ∧ 0 < depth before then
    ⟨.unclosedGroup, startOf source next⟩
  else
    ⟨unexpectedCause next, startOf source next⟩

/-- The scan of `ts` after the tokens `before`: the error at the first illegal place. -/
def scan (source : String) (before : List Token) : List Token → Option Error
  | [] => if legal before none then none else some (fault source before none)
  | t :: ts =>
    if legal before (some t) then scan source (t :: before) ts
    else some (fault source before (some t))

/-- The scan of what is pending at a reader. -/
def Reader.scan (r : Reader) (before : List Token) : Option Error :=
  TruthTable.scan r.source before r.pending

theorem Reader.ReadTo.scan_eq {r s : Reader} {t : Token} (h : r.ReadTo [t] s)
    {before : List Token} (hlegal : legal before (some t) = true) :
    r.scan before = s.scan (t :: before) := by
  rw [Reader.scan, h.pending_eq, List.singleton_append, TruthTable.scan, if_pos hlegal, Reader.scan,
    h.source_eq]

theorem Reader.scan_eq_fault {r : Reader} {before : List Token}
    (hlegal : legal before r.peek? = false) :
    r.scan before = some (fault r.source before r.peek?) := by
  obtain ⟨source, pending, vs⟩ := r
  have hnot : ¬legal before pending.head? = true := by
    rw [Bool.not_eq_true]
    exact hlegal
  cases pending with
  | nil => exact if_neg hnot
  | cons t ts => exact if_neg hnot

/-! ## Where a formula stands -/

/-- Reading at `power` can begin after the tokens `before`. -/
structure Begun (power : BindingPower) (before : List Token) : Prop where
  due : operandDue before = true
  lowest_iff : power = .lowest ↔ formulaDue before = true

/-- A left side read at `power` lies between a place of depth `d` and the tokens `before`. -/
structure LeftEnded (d : Nat) (power : BindingPower) (left : Formula) (before : List Token)
    (s : Reader) : Prop where
  due : operandDue before = false
  depth_eq : depth before = d
  assignable_iff : ∀ t ∈ s.peek?, t.kind = .assignment →
    (assignable before = true ↔ left.isAtom = true ∧ power = .lowest)

/-- A formula read at `power` lies between a place of depth `d` and the tokens `before`, and
none that follows it goes on with it. -/
structure Ended (d : Nat) (power : BindingPower) (before : List Token) (s : Reader) : Prop where
  due : operandDue before = false
  depth_eq : depth before = d
  not_assignable : ∀ t ∈ s.peek?, t.kind = .assignment → assignable before = false
  le_of_connective : ∀ t ∈ s.peek?, t.kind.isConnective = true → .logical ≤ power

/-- After a formula of the lowest power nothing is legal but the end of what it stands in. -/
theorem Ended.legal_eq {d : Nat} {before : List Token} {s : Reader}
    (h : Ended d .lowest before s) :
    legal before s.peek? = match s.peek? with
      | none => decide (d = 0)
      | some t => decide (t.kind = .closeParen) && decide (0 < d) := by
  cases hnext : s.peek? with
  | none => rw [legal, h.due, h.depth_eq]; rfl
  | some t =>
    have hconnective : t.kind.isConnective = false := by
      rw [← Bool.not_eq_true]
      intro ht
      exact absurd (h.le_of_connective t hnext ht) (by decide)
    have hassign : (decide (t.kind = .assignment) && assignable before) = false := by
      by_cases ht : t.kind = .assignment
      · rw [h.not_assignable t hnext ht, Bool.and_false]
      · rw [decide_eq_false ht, Bool.false_and]
    rw [legal, h.due, hconnective, hassign, h.depth_eq]
    simp

/-- Where a formula ends, a left side that is no name ends. -/
theorem Ended.leftEnded {d : Nat} {power : BindingPower} {before : List Token} {s : Reader}
    (h : Ended d power before s) {left : Formula} (hatom : left.isAtom = false)
    (outer : BindingPower) : LeftEnded d outer left before s where
  due := h.due
  depth_eq := h.depth_eq
  assignable_iff t ht hkind := by
    rw [h.not_assignable t ht hkind, hatom]
    simp

/-- A sign that neither opens nor closes a group leaves the depth as it is. -/
theorem depth_cons_of_ne {t : Token} {before : List Token} (hopen : t.kind ≠ .openParen)
    (hclose : t.kind ≠ .closeParen) : depth (t :: before) = depth before := by
  rw [depth]
  split
  · exact absurd ‹_› hopen
  · exact absurd ‹_› hclose
  · rfl

/-! ## Steps of reading -/

namespace Outcome

variable {α β : Type} {limit : Nat}

/-- The scan goes along with the step: to a place with the property, or to the same error. -/
def Scans (before : List Token) (r : Reader) (post : α → List Token → Reader → Prop) :
    Outcome α limit → Prop
  | done value s _ => ∃ before', r.scan before = s.scan before' ∧ post value before' s
  | failed error _ => r.scan before = some error

theorem Scans.mono {before : List Token} {r : Reader} {post post' : α → List Token → Reader → Prop}
    {o : Outcome α limit} (h : o.Scans before r post)
    (himp : ∀ value before' s, post value before' s → post' value before' s) :
    o.Scans before r post' := by
  cases o with
  | done value s _ =>
    obtain ⟨before', hscan, hpost⟩ := h
    exact ⟨before', hscan, himp value before' s hpost⟩
  | failed _ _ => exact h

theorem Scans.widen {before : List Token} {r : Reader} {post : α → List Token → Reader → Prop}
    {o : Outcome α limit} (h : o.Scans before r post) {wider : Nat} (hle : limit ≤ wider) :
    (o.widen hle).Scans before r post := by
  cases o <;> exact h

theorem Scans.map {before : List Token} {r : Reader} {post : β → List Token → Reader → Prop}
    {o : Outcome α limit} {f : α → β}
    (h : o.Scans before r fun value before' s => post (f value) before' s) :
    (o.map f).Scans before r post := by
  cases o <;> exact h

/-- A scan of what is left is a scan of the whole. -/
theorem Scans.of_eq {before before' : List Token} {r s : Reader}
    {post : α → List Token → Reader → Prop} {o : Outcome α limit}
    (hscan : r.scan before = s.scan before') (h : o.Scans before' s post) :
    o.Scans before r post := by
  cases o with
  | done value u _ =>
    obtain ⟨before'', hscan', hpost⟩ := h
    exact ⟨before'', hscan.trans hscan', hpost⟩
  | failed _ _ => exact hscan.trans h

theorem Scans.andThen {before : List Token} {r : Reader} {mid : α → List Token → Reader → Prop}
    {post : β → List Token → Reader → Prop} {o : Outcome α limit} (h : o.Scans before r mid)
    {step : α → (s : Reader) → s.pending.length < limit → Outcome β s.pending.length}
    (hstep : ∀ value before' s shorter, mid value before' s →
      (step value s shorter).Scans before' s post) :
    (o.andThen step).Scans before r post := by
  cases o with
  | done value s shorter =>
    obtain ⟨before', hscan, hmid⟩ := h
    exact ((hstep value before' s shorter hmid).of_eq hscan).widen (Nat.le_of_lt shorter)
  | failed _ _ => exact h

end Outcome

namespace Reader

variable {r : Reader} {t : Token} {before : List Token}

/-- Reading a token that is legal is a step of the scan. -/
theorem advance_scans (ht : r.peek? = some t) (hlegal : legal before (some t) = true) :
    r.advance.Scans before r fun u before' _ => u = t ∧ before' = t :: before := by
  obtain ⟨source, pending, vs⟩ := r
  cases pending with
  | nil => cases ht
  | cons u ts =>
    cases ht
    have hread : (⟨source, t :: ts, vs⟩ : Reader).ReadTo [t] ⟨source, ts, vs.note t⟩ :=
      ⟨rfl, rfl, rfl⟩
    exact ⟨t :: before, hread.scan_eq hlegal, rfl, rfl⟩

theorem expectOr_scans (ht : r.peek? = some t) (hlegal : legal before (some t) = true) {kind : Kind}
    (hkind : t.kind = kind) (error : Error) :
    (r.expectOr kind error).Scans before r fun u before' _ => u = t ∧ before' = t :: before := by
  rw [expectOr, if_pos (by rw [ht, Option.map_some, hkind])]
  exact advance_scans ht hlegal

end Reader

/-- An operand that is read after the tokens `before` at some power is scanned. -/
def OperandScans {limit : Nat} (operand : OperandReader limit) : Prop :=
  ∀ power s shorter before, Begun power before →
    (operand power s shorter).Scans before s fun _ before' u =>
      Ended (depth before) power before' u

/-! ## Rules -/

namespace Rules

/-- The kind of token at which a head rule of the standard rules applies. -/
theorem head?_standard {kind : Kind} {rule : HeadRule} (h : standard.head? kind = some rule) :
    (rule = .name ∧ kind = .identifier) ∨ (rule = .negation ∧ kind = .tilde) ∨
      (rule = .group ∧ kind = .openParen) := by
  cases kind <;> cases h <;> decide

theorem head?_standard_eq_none_iff {kind : Kind} :
    standard.head? kind = none ↔ kind.beginsOperand = false := by
  cases kind <;> decide

/-- The kind of token at which a tail rule of the standard rules applies, and its power. -/
theorem tail?_standard {kind : Kind} {power : BindingPower} {rule : TailRule}
    (h : standard.tail? kind = some (power, rule)) :
    (rule = .connective ∧ kind.isConnective = true ∧ power = .logical) ∨
      (rule = .assignment ∧ kind = .assignment ∧ power = .assignment) := by
  cases kind <;> cases h <;> decide

end Rules

theorem legal_of_due {before : List Token} (hdue : operandDue before = true) {t : Token}
    (ht : t.kind.beginsOperand = true) : legal before (some t) = true := by
  rw [legal, hdue]
  exact ht

/-- What does not begin an operand where one is due is unexpected. -/
theorem Reader.scan_eq_unexpected {r : Reader} {before : List Token}
    (hdue : operandDue before = true) (hnext : ∀ t ∈ r.peek?, t.kind.beginsOperand = false) :
    r.scan before = some r.unexpected := by
  have hlegal : legal before r.peek? = false := by
    cases h : r.peek? with
    | none => rw [legal, hdue]; rfl
    | some t => rw [legal, hdue]; exact hnext t h
  rw [Reader.scan_eq_fault hlegal, fault, if_neg (by simp [hdue]), unexpected]
  cases r.peek? <;> rfl

/-- After a formula in a group, all but the closing parenthesis makes the group unclosed. -/
theorem Ended.scan_eq_unclosed {d : Nat} {before : List Token} {s : Reader}
    (h : Ended (d + 1) .lowest before s) (hnext : s.peek?.map Token.kind ≠ some .closeParen) :
    s.scan before = some ⟨.unclosedGroup, s.lookahead⟩ := by
  have hlegal : legal before s.peek? = false := by
    rw [h.legal_eq]
    cases hpeek : s.peek? with
    | none => rfl
    | some t =>
      rw [hpeek, Option.map_some] at hnext
      simpa using fun ht : t.kind = .closeParen => hnext (congrArg some ht)
  have hdepth : 0 < depth before := h.depth_eq ▸ Nat.succ_pos d
  rw [Reader.scan_eq_fault hlegal, fault, if_pos ⟨h.due, hdepth⟩, Reader.lookahead]
  cases s.peek? <;> rfl

/-! ### Heads -/

namespace HeadRule

variable {power : BindingPower} {r : Reader} {t : Token} {before : List Token}

theorem readName_scans (ht : r.peek? = some t) (hkind : t.kind = .identifier)
    (hbegun : Begun power before) :
    (readName r).Scans before r fun left before' s =>
      LeftEnded (depth before) power left before' s := by
  have hlegal := legal_of_due hbegun.due (t := t) (by rw [hkind]; rfl)
  refine ((Reader.expectOr_scans ht hlegal hkind _).mono ?_).map
  intro name before' s hname
  obtain ⟨rfl, rfl⟩ := hname
  refine ⟨?_, ?_, ?_⟩
  · rw [operandDue, hkind]
    rfl
  · exact depth_cons_of_ne (by rw [hkind]; decide) (by rw [hkind]; decide)
  -- The name may be assigned to exactly where a whole formula may begin.
  · intro u _ _
    rw [assignable, hkind, hbegun.lowest_iff]
    simp [Formula.isAtom]

theorem readNegation_scans {operand : OperandReader r.pending.length} (h : OperandScans operand)
    (ht : r.peek? = some t) (hkind : t.kind = .tilde) (hbegun : Begun power before) :
    (readNegation r operand).Scans before r fun left before' s =>
      LeftEnded (depth before) power left before' s := by
  have hlegal := legal_of_due hbegun.due (t := t) (by rw [hkind]; rfl)
  refine (Reader.advance_scans ht hlegal).andThen ?_
  intro sign before' s shorter hsign
  obtain ⟨rfl, rfl⟩ := hsign
  rw [if_pos hkind]
  have hbegun' : Begun .unary (sign :: before) :=
    ⟨by rw [operandDue, hkind]; rfl, by rw [formulaDue, hkind]; decide⟩
  have hdepth : depth (sign :: before) = depth before :=
    depth_cons_of_ne (by rw [hkind]; decide) (by rw [hkind]; decide)
  have hoperand := h .unary s shorter _ hbegun'
  rw [hdepth] at hoperand
  refine Outcome.Scans.map (hoperand.mono fun f before' u hended => ?_)
  exact hended.leftEnded rfl power

theorem readGroup_scans {operand : OperandReader r.pending.length} (h : OperandScans operand)
    (ht : r.peek? = some t) (hkind : t.kind = .openParen) (hbegun : Begun power before) :
    (readGroup r operand).Scans before r fun left before' s =>
      LeftEnded (depth before) power left before' s := by
  have hlegal := legal_of_due hbegun.due (t := t) (by rw [hkind]; rfl)
  refine (Reader.expectOr_scans ht hlegal hkind _).andThen ?_
  intro opening before' inside shorter hopening
  obtain ⟨rfl, rfl⟩ := hopening
  have hopen : Begun .lowest (opening :: before) :=
    ⟨by rw [operandDue, hkind]; rfl, by rw [formulaDue, hkind]; decide⟩
  have hdepth : depth (opening :: before) = depth before + 1 := by rw [depth, hkind]
  refine (h .lowest inside shorter _ hopen).andThen fun f before' u _ hended => ?_
  rw [hdepth] at hended
  refine Outcome.Scans.map ?_
  -- The group is open where its formula ends, so all that is legal there is to close it.
  cases hnext : u.peek? with
  | none =>
    have hne : u.peek?.map Token.kind ≠ some .closeParen := by rw [hnext]; exact nofun
    rw [Reader.expectOr, if_neg hne]
    exact hended.scan_eq_unclosed hne
  | some closing =>
    by_cases hclosing : closing.kind = .closeParen
    · have hlegal : legal before' (some closing) = true := by
        have hiff := hended.legal_eq
        rw [hnext] at hiff
        simp [hiff, hclosing]
      refine (Reader.expectOr_scans hnext hlegal hclosing _).mono ?_
      intro sign before'' v hsign
      obtain ⟨rfl, rfl⟩ := hsign
      refine ⟨by rw [operandDue, hclosing]; rfl, ?_, fun w _ _ => ?_⟩
      · rw [depth, hclosing]
        show depth before' - 1 = depth before
        rw [hended.depth_eq, Nat.add_sub_cancel]
      · rw [assignable, hclosing]
        simp [Formula.isAtom]
    · have hne : u.peek?.map Token.kind ≠ some .closeParen := by
        rw [hnext, Option.map_some]
        exact fun heq => hclosing (Option.some.inj heq)
      rw [Reader.expectOr, if_neg hne]
      exact hended.scan_eq_unclosed hne

theorem read_scans {rule : HeadRule} {operand : OperandReader r.pending.length}
    (h : OperandScans operand)
    (hrule : (r.peek?.bind fun t => Rules.standard.head? t.kind) = some rule)
    (hbegun : Begun power before) :
    (rule.read r operand).Scans before r fun left before' s =>
      LeftEnded (depth before) power left before' s := by
  obtain ⟨t, ht, hhead⟩ := Option.bind_eq_some_iff.1 hrule
  rcases Rules.head?_standard hhead with ⟨rfl, hkind⟩ | ⟨rfl, hkind⟩ | ⟨rfl, hkind⟩
  · exact readName_scans ht hkind hbegun
  · exact readNegation_scans h ht hkind hbegun
  · exact readGroup_scans h ht hkind hbegun

end HeadRule

/-! ### Tails -/

namespace TailRule

variable {d : Nat} {power : BindingPower} {left : Formula} {r : Reader} {t : Token}
  {before : List Token}

theorem readConnective_scans {operand : OperandReader r.pending.length} (h : OperandScans operand)
    (ht : r.peek? = some t) {c : Connective} (hkind : t.kind = c.kind)
    (hleft : LeftEnded d power left before r) :
    (readConnective left .logical r operand).Scans before r fun longer before' s =>
      LeftEnded d power longer before' s := by
  have hlegal : legal before (some t) = true := by
    rw [legal, hleft.due, Kind.isConnective_iff.2 ⟨c, hkind⟩]
    rfl
  refine (Reader.advance_scans ht hlegal).andThen ?_
  intro sign before' s shorter hsign
  obtain ⟨rfl, rfl⟩ := hsign
  rw [Connective.ofToken, Connective.ofKind?_eq_some_iff.2 hkind]
  have hright : Begun .logical (sign :: before) :=
    ⟨by rw [operandDue, hkind]; cases c <;> rfl, by rw [formulaDue, hkind]; cases c <;> decide⟩
  have hdepth : depth (sign :: before) = d := by
    rw [← hleft.depth_eq]
    exact depth_cons_of_ne (by rw [hkind]; cases c <;> decide) (by rw [hkind]; cases c <;> decide)
  have hoperand := h .logical s shorter _ hright
  rw [hdepth] at hoperand
  refine Outcome.Scans.map (hoperand.mono fun f before' u hended => ?_)
  exact hended.leftEnded rfl power

theorem readAssignment_scans {operand : OperandReader r.pending.length} (h : OperandScans operand)
    (ht : r.peek? = some t) (hkind : t.kind = .assignment) (hname : left.isAtom = true)
    (hleft : LeftEnded d .lowest left before r) :
    (readAssignment left r operand).Scans before r fun longer before' s =>
      LeftEnded d .lowest longer before' s := by
  have hassignable : assignable before = true := (hleft.assignable_iff t ht hkind).2 ⟨hname, rfl⟩
  have hlegal : legal before (some t) = true := by
    rw [legal, hleft.due, hkind, hassignable]
    rfl
  refine (Reader.expectOr_scans ht hlegal hkind _).andThen ?_
  intro sign before' s shorter hsign
  obtain ⟨rfl, rfl⟩ := hsign
  have hvalue : Begun .lowest (sign :: before) :=
    ⟨by rw [operandDue, hkind]; rfl, by rw [formulaDue, hkind]; decide⟩
  have hdepth : depth (sign :: before) = d := by
    rw [depth_cons_of_ne (by rw [hkind]; decide) (by rw [hkind]; decide), hleft.depth_eq]
  have hoperand := h .lowest s shorter _ hvalue
  rw [hdepth] at hoperand
  refine Outcome.Scans.map (hoperand.mono fun f before' u hended => ?_)
  exact hended.leftEnded rfl .lowest

theorem read_scans {rule : TailRule} {tighter : BindingPower}
    {operand : OperandReader r.pending.length} (h : OperandScans operand)
    (htail : Rules.standard.tailAt? power left r = some (tighter, rule))
    (hleft : LeftEnded d power left before r) :
    (rule.read left tighter r operand).Scans before r fun longer before' s =>
      LeftEnded d power longer before' s := by
  obtain ⟨t, ht, hrule, hlt, hname⟩ := Rules.tailAt?_eq_some_iff.1 htail
  rcases Rules.tail?_standard hrule with ⟨rfl, hkind, rfl⟩ | ⟨rfl, hkind, rfl⟩
  · obtain ⟨c, hc⟩ := Kind.isConnective_iff.1 hkind
    exact readConnective_scans h ht hc hleft
  · have hlowest : power = .lowest := by cases power <;> first | rfl | exact absurd hlt (by decide)
    subst hlowest
    exact readAssignment_scans h ht hkind (hname hkind) hleft

end TailRule

/-! ### Whole formulas -/

/-- A left side that nothing goes on with is a formula of its power. -/
theorem LeftEnded.ended {d : Nat} {power : BindingPower} {left : Formula} {before : List Token}
    {r : Reader} (h : LeftEnded d power left before r)
    (hsettled : Rules.standard.Settled power left r) : Ended d power before r where
  due := h.due
  depth_eq := h.depth_eq
  not_assignable t ht hkind := by
    rw [← Bool.not_eq_true, h.assignable_iff t ht hkind]
    intro hassign
    obtain ⟨hname, rfl⟩ := hassign
    -- At the lowest power only a left side that is no name stops before the sign.
    rcases hsettled t ht with hle | ⟨_, hatom⟩
    · rw [hkind] at hle
      exact absurd hle (by decide)
    · rw [hname] at hatom
      cases hatom
  le_of_connective t ht hkind := by
    rcases hsettled t ht with hle | ⟨hassign, _⟩
    · cases hk : t.kind <;> rw [hk] at hkind hle <;> first | exact hle | cases hkind
    · rw [hassign] at hkind
      cases hkind

namespace Rules

theorem readTails_scans {d : Nat} {power : BindingPower} {left : Formula} {r : Reader}
    {operand : OperandReader r.pending.length} (h : OperandScans operand) {before : List Token}
    (hleft : LeftEnded d power left before r) :
    (standard.readTails power left r operand).Scans before r fun _ before' s =>
      Ended d power before' s := by
  fun_induction readTails standard power left r operand generalizing before with
  | case1 left r operand hstop =>
    exact ⟨before, rfl, hleft.ended (tailAt?_eq_none_iff.1 hstop)⟩
  | case2 left r operand tighter rule htail error s hread =>
    have hscans := TailRule.read_scans h htail hleft
    rwa [hread] at hscans
  | case3 left r operand tighter rule htail longer s shorter hread ih =>
    have hscans := TailRule.read_scans h htail hleft
    rw [hread] at hscans
    obtain ⟨before', hscan, hlonger⟩ := hscans
    refine ((ih ?_ hlonger).of_eq hscan).widen _
    exact fun p u hu before'' hbegun => h p u _ before'' hbegun

theorem readStep_scans {power : BindingPower} {r : Reader}
    {operand : OperandReader r.pending.length} (h : OperandScans operand) {before : List Token}
    (hbegun : Begun power before) :
    (standard.readStep power r operand).Scans before r fun _ before' s =>
      Ended (depth before) power before' s := by
  unfold readStep
  split
  · next hnone =>
    refine Reader.scan_eq_unexpected hbegun.due fun t ht => ?_
    rw [ht, Option.bind_some] at hnone
    exact head?_standard_eq_none_iff.1 hnone
  · next rule hrule =>
    have hscans := HeadRule.read_scans h hrule hbegun
    split
    · next error s hread => rwa [hread] at hscans
    · next left s shorter hread =>
      rw [hread] at hscans
      obtain ⟨before', hscan, hleft⟩ := hscans
      refine ((readTails_scans ?_ hleft).of_eq hscan).widen _
      exact fun p u hu before'' hbegun' => h p u _ before'' hbegun'

/-- Reading by the standard rules and the scan agree, wherever reading can begin. -/
theorem read_scans (power : BindingPower) (r : Reader) {before : List Token}
    (hbegun : Begun power before) :
    (standard.read power r).Scans before r fun _ before' s =>
      Ended (depth before) power before' s := by
  fun_induction read standard power r generalizing before with
  | case1 power r ih => exact readStep_scans (fun p s shorter _ => ih p s shorter) hbegun

end Rules

/-- The scan of a whole source gives the error of reading it, if it has one. -/
theorem parse_eq_scan (vs : Variables) (source : String) :
    match (parse vs source).1 with
    | .ok _ => scan source [] (tokens source) = none
    | .error error => scan source [] (tokens source) = some error := by
  have hscans := Rules.read_scans .lowest (Reader.start vs source)
    (show Begun .lowest [] from ⟨rfl, by decide⟩)
  rw [parse]
  cases hread : Rules.standard.read .lowest (Reader.start vs source) with
  | failed error rest =>
    rw [hread] at hscans
    exact hscans
  | done f rest shorter =>
    rw [hread] at hscans
    obtain ⟨before, hscan, hended⟩ := hscans
    have hscan : scan source [] (tokens source) = rest.scan before := hscan
    have hlegal := hended.legal_eq
    obtain ⟨restSource, pending, vs'⟩ := rest
    cases pending with
    | nil => exact hscan.trans (if_pos hlegal)
    | cons t ts =>
      -- A token is left over, and no group is open.
      have hillegal : legal before (some t) = false := by
        rw [show (⟨restSource, t :: ts, vs'⟩ : Reader).peek? = some t from rfl] at hlegal
        rw [hlegal]
        exact Bool.and_false _
      have hfault := Reader.scan_eq_fault (r := ⟨restSource, t :: ts, vs'⟩) hillegal
      rw [fault, if_neg (by rw [hended.depth_eq]; simp [depth])] at hfault
      exact hscan.trans hfault

/-- An error of the scan is the error of reading. -/
theorem parse_eq_error {vs : Variables} {source : String} {error : Error}
    (h : scan source [] (tokens source) = some error) : (parse vs source).1 = .error error := by
  have hparse := parse_eq_scan vs source
  cases hread : (parse vs source).1 with
  | ok f =>
    rw [hread] at hparse
    cases hparse.symm.trans h
  | error error' =>
    rw [hread] at hparse
    rw [Option.some.inj (hparse.symm.trans h)]

/-! ## Places -/

/-- Whether what stands at place `i` of the tokens, or their end there, is legal. -/
def LegalAt (ts : List Token) (i : Nat) : Prop := legal (ts.take i).reverse ts[i]? = true

/-- The error of what stands at place `i` of the tokens of `source`. -/
def faultAt (source : String) (ts : List Token) (i : Nat) : Error :=
  fault source (ts.take i).reverse ts[i]?

/-- The place `i` is the first one of the tokens, the end included, at which something illegal
stands. -/
structure FirstIllegal (ts : List Token) (i : Nat) : Prop where
  le : i ≤ ts.length
  illegal : ¬LegalAt ts i
  legal_before : ∀ j < i, LegalAt ts j

theorem FirstIllegal.unique {ts : List Token} {i j : Nat} (hi : FirstIllegal ts i)
    (hj : FirstIllegal ts j) : i = j := by
  rcases Nat.lt_trichotomy i j with hlt | heq | hgt
  · exact absurd (hj.legal_before i hlt) hi.illegal
  · exact heq
  · exact absurd (hi.legal_before j hgt) hj.illegal

theorem legalAt_length_iff (passed ts : List Token) :
    LegalAt (passed ++ ts) passed.length ↔ legal passed.reverse ts.head? = true := by
  rw [LegalAt, List.take_left, List.getElem?_append_right (Nat.le_refl _), Nat.sub_self,
    List.head?_eq_getElem?]

theorem faultAt_length (source : String) (passed ts : List Token) :
    faultAt source (passed ++ ts) passed.length = fault source passed.reverse ts.head? := by
  rw [faultAt, List.take_left, List.getElem?_append_right (Nat.le_refl _), Nat.sub_self,
    List.head?_eq_getElem?]

/-- After legal tokens the scan goes through to the end, or finds the first illegal place. -/
theorem scan_cases (source : String) (ts passed : List Token)
    (hpassed : ∀ j < passed.length, LegalAt (passed ++ ts) j) :
    (scan source passed.reverse ts = none ∧
        ∀ i ≤ (passed ++ ts).length, LegalAt (passed ++ ts) i) ∨
      ∃ i, FirstIllegal (passed ++ ts) i ∧
        scan source passed.reverse ts = some (faultAt source (passed ++ ts) i) := by
  induction ts generalizing passed with
  | nil =>
    by_cases hlegal : legal passed.reverse none = true
    · refine Or.inl ⟨if_pos hlegal, fun i hi => ?_⟩
      rw [List.length_append, List.length_nil, Nat.add_zero] at hi
      rcases Nat.lt_or_eq_of_le hi with hlt | rfl
      · exact hpassed i hlt
      · exact (legalAt_length_iff passed []).2 hlegal
    -- The end of the source is the first illegal place.
    · refine Or.inr ⟨passed.length, ⟨by simp, ?_, hpassed⟩, ?_⟩
      · rw [legalAt_length_iff]
        exact hlegal
      · rw [faultAt_length]
        exact if_neg hlegal
  | cons t ts ih =>
    by_cases hlegal : legal passed.reverse (some t) = true
    · have hassoc : passed ++ t :: ts = (passed ++ [t]) ++ ts := by simp
      have hstep : scan source passed.reverse (t :: ts) = scan source (passed ++ [t]).reverse ts := by
        rw [List.reverse_append]
        exact if_pos hlegal
      rw [hstep, hassoc]
      refine ih (passed ++ [t]) fun j hj => ?_
      rw [← hassoc]
      rw [List.length_append, List.length_singleton] at hj
      rcases Nat.lt_or_eq_of_le (Nat.le_of_lt_succ hj) with hlt | rfl
      · exact hpassed j hlt
      · exact (legalAt_length_iff passed (t :: ts)).2 hlegal
    -- The scan stops here, with all before it legal.
    · refine Or.inr ⟨passed.length, ⟨by simp, ?_, hpassed⟩, ?_⟩
      · rw [legalAt_length_iff]
        exact hlegal
      · rw [faultAt_length]
        exact if_neg hlegal

/-- The errors of illegal places are of three kinds. -/
theorem faultAt_cause (source : String) (ts : List Token) (i : Nat) :
    (faultAt source ts i).cause = .unexpectedEnd ∨ (faultAt source ts i).cause = .unclosedGroup ∨
      ∃ text, (faultAt source ts i).cause = .unexpectedToken text := by
  rw [faultAt, fault]
  split
  · exact Or.inr (Or.inl rfl)
  · cases ts[i]? with
    | none => exact Or.inl rfl
    | some t => exact Or.inr (Or.inr ⟨t.text, rfl⟩)

/-- Reading a source succeeds exactly if everything in it is legal where it stands, and fails
with an error exactly if that is the error of the first illegal place. -/
theorem parse_cases (vs : Variables) (source : String) :
    ((∃ f, (parse vs source).1 = .ok f) ∧ ∀ i ≤ (tokens source).length, LegalAt (tokens source) i) ∨
      ∃ i, FirstIllegal (tokens source) i ∧
        (parse vs source).1 = .error (faultAt source (tokens source) i) := by
  have hparse := parse_eq_scan vs source
  rcases scan_cases source (tokens source) [] (by simp) with ⟨hscan, hlegal⟩ | ⟨i, hi, hscan⟩
  · refine Or.inl ⟨?_, hlegal⟩
    cases hresult : (parse vs source).1 with
    | ok f => exact ⟨f, rfl⟩
    | error error =>
      rw [hresult] at hparse
      cases hparse.symm.trans hscan
  · refine Or.inr ⟨i, hi, ?_⟩
    cases hresult : (parse vs source).1 with
    | ok f =>
      rw [hresult] at hparse
      cases hparse.symm.trans hscan
    | error error =>
      rw [hresult] at hparse
      rw [Option.some.inj (hparse.symm.trans hscan)]
      rfl

/-- Reading a source agrees with one scan: it succeeds exactly if everything is legal where it
stands, the end of the source included, and its error is that of the first illegal place. So
the source ends early, or a token is unexpected, or a group is unclosed, and nothing else. The
place that the error gives, the end of the source too, is a byte offset modulo `2 ^ 32`. -/
theorem parse_error_iff_fault (vs : Variables) (source : String) :
    ((∃ f, (parse vs source).1 = .ok f) ↔
      ∀ i ≤ (tokens source).length, LegalAt (tokens source) i) ∧
    (∀ error, (parse vs source).1 = .error error ↔
      ∃ i, FirstIllegal (tokens source) i ∧ error = faultAt source (tokens source) i) ∧
    ∀ error, (parse vs source).1 = .error error →
      error.cause = .unexpectedEnd ∨ error.cause = .unclosedGroup ∨
        ∃ text, error.cause = .unexpectedToken text := by
  rcases parse_cases vs source with ⟨⟨f, hf⟩, hlegal⟩ | ⟨i, hi, herror⟩
  · rw [hf]
    refine ⟨⟨fun _ => hlegal, fun _ => ⟨f, rfl⟩⟩, fun error => ⟨nofun, ?_⟩, nofun⟩
    intro hfault
    obtain ⟨i, hi, -⟩ := hfault
    exact absurd (hlegal i hi.le) hi.illegal
  · rw [herror]
    refine ⟨⟨fun ⟨_, hf⟩ => (nomatch hf), fun hlegal => absurd (hlegal i hi.le) hi.illegal⟩, ?_, ?_⟩
    · intro error
      constructor
      · intro h
        exact ⟨i, hi, (Except.error.inj h).symm⟩
      · intro h
        obtain ⟨j, hj, rfl⟩ := h
        rw [hi.unique hj]
    · intro error h
      rw [← Except.error.inj h]
      exact faultAt_cause source (tokens source) i

/-- After a name another one is unexpected. -/
theorem parse_two_names : (parse .empty "p q").1 = .error ⟨.unexpectedToken "q", 2⟩ := by
  have hfirst : FirstIllegal (tokens "p q") 1 := by
    refine ⟨by decide +kernel, ?_, ?_⟩
    · show ¬legal _ _ = true
      decide +kernel
    · intro j hj
      obtain rfl : j = 0 := by omega
      show legal _ _ = true
      decide +kernel
  have hfault : ⟨.unexpectedToken "q", 2⟩ = faultAt "p q" (tokens "p q") 1 := by decide +kernel
  exact ((parse_error_iff_fault .empty "p q").2.1 _).2 ⟨1, hfirst, hfault⟩

end TruthTable
