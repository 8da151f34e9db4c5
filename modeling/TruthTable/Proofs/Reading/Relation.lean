import TruthTable.Proofs.Shape
import TruthTable.Reading.Progress

/-!
# Reading as a relation

`Rules.Reads` says what reading does when it succeeds, one constructor for each way in
which a formula begins and goes on. It is about a `Stage`: a whole formula at a binding
power, or the tails of a left side that has been read.

Main statement: `read_yields_iff`, a reader of formulas answers exactly what the relation
says, whatever the rules. What holds of all formulas that are read is then shown by
induction on `Rules.Reads`.
-/

namespace TruthTable

/-! ## Readers one token on -/

namespace Reader.ReadTo

variable {r s : Reader} {t : Token}

theorem peek?_eq (h : r.ReadTo [t] s) : r.peek? = some t := by
  rw [peek?, h.pending_eq]
  rfl

/-- Tokens that are read one after the other can be read in two goes. -/
theorem split {r s : Reader} {ts us : List Token} (h : r.ReadTo (ts ++ us) s) :
    ∃ m, r.ReadTo ts m ∧ m.ReadTo us s := by
  refine ⟨⟨r.source, us ++ s.pending, r.seen.noteAll ts⟩, ⟨rfl, ?_, rfl⟩, ⟨h.source_eq, rfl, ?_⟩⟩
  · rw [h.pending_eq, List.append_assoc]
  · rw [h.seen_eq, Variables.noteAll_append]

end Reader.ReadTo

namespace Outcome

variable {α β : Type} {limit : Nat}

/-- A value of the step and the reader after it have the property. -/
def Ensures (post : α → Reader → Prop) : Outcome α limit → Prop
  | done value rest _ => post value rest
  | failed _ _ => True

theorem Ensures.mono {post post' : α → Reader → Prop} {o : Outcome α limit} (h : o.Ensures post)
    (himp : ∀ value rest, post value rest → post' value rest) : o.Ensures post' := by
  cases o with
  | done value rest _ => exact himp value rest h
  | failed _ _ => exact trivial

theorem Ensures.widen {post : α → Reader → Prop} {o : Outcome α limit} (h : o.Ensures post)
    {wider : Nat} (hle : limit ≤ wider) : (o.widen hle).Ensures post := by
  cases o <;> exact h

theorem Ensures.map {post : β → Reader → Prop} {o : Outcome α limit} {f : α → β}
    (h : o.Ensures fun value rest => post (f value) rest) : (o.map f).Ensures post := by
  cases o <;> exact h

theorem Ensures.andThen {mid : α → Reader → Prop} {post : β → Reader → Prop}
    {o : Outcome α limit} (h : o.Ensures mid)
    {step : α → (s : Reader) → s.pending.length < limit → Outcome β s.pending.length}
    (hstep : ∀ value s shorter, mid value s → (step value s shorter).Ensures post) :
    (o.andThen step).Ensures post := by
  cases o with
  | done value s shorter => exact (hstep value s shorter h).widen (Nat.le_of_lt shorter)
  | failed _ _ => exact trivial

/-- The step succeeds with `value` and leaves `rest`. -/
def Yields (value : α) (rest : Reader) : Outcome α limit → Prop
  | done value' rest' _ => value' = value ∧ rest' = rest
  | failed _ _ => False

theorem Yields.widen {value : α} {rest : Reader} {o : Outcome α limit} (h : o.Yields value rest)
    {wider : Nat} (hle : limit ≤ wider) : (o.widen hle).Yields value rest := by
  cases o <;> exact h

theorem Yields.map {value : α} {rest : Reader} {o : Outcome α limit} (h : o.Yields value rest)
    (f : α → β) : (o.map f).Yields (f value) rest := by
  cases o with
  | done value' rest' _ => exact ⟨congrArg f h.1, h.2⟩
  | failed _ _ => exact h

theorem Yields.andThen {value : α} {s rest : Reader} {result : β} {o : Outcome α limit}
    (h : o.Yields value s)
    {step : α → (s : Reader) → s.pending.length < limit → Outcome β s.pending.length}
    (hstep : ∀ shorter, (step value s shorter).Yields result rest) :
    (o.andThen step).Yields result rest := by
  cases o with
  | done value' s' shorter =>
    obtain ⟨rfl, rfl⟩ := h
    exact (hstep shorter).widen (Nat.le_of_lt shorter)
  | failed _ _ => exact h.elim

theorem yields_iff {value : α} {rest : Reader} {o : Outcome α limit} :
    o.Yields value rest ↔ ∃ shorter, o = .done value rest shorter := by
  cases o with
  | done value' rest' shorter =>
    constructor
    · intro h
      obtain ⟨rfl, rfl⟩ := h
      exact ⟨shorter, rfl⟩
    · intro h
      obtain ⟨_, hdone⟩ := h
      cases hdone
      exact ⟨rfl, rfl⟩
  | failed _ _ =>
    constructor
    · exact False.elim
    · intro h
      obtain ⟨_, hdone⟩ := h
      cases hdone

/-- A step has one value and leaves one reader. -/
theorem Yields.unique {value value' : α} {rest rest' : Reader} {o : Outcome α limit}
    (h : o.Yields value rest) (h' : o.Yields value' rest') : value = value' ∧ rest = rest' := by
  cases o with
  | done _ _ _ => exact ⟨h.1.symm.trans h'.1, h.2.symm.trans h'.2⟩
  | failed _ _ => exact h.elim

end Outcome

namespace Reader

theorem advance_ensures (r : Reader) : r.advance.Ensures fun t s => r.ReadTo [t] s := by
  obtain ⟨source, pending, vs⟩ := r
  cases pending with
  | nil => exact trivial
  | cons t ts => exact ⟨rfl, rfl, rfl⟩

theorem expectOr_ensures (r : Reader) (kind : Kind) (error : Error) :
    (r.expectOr kind error).Ensures fun t s => t.kind = kind ∧ r.ReadTo [t] s := by
  unfold expectOr
  split
  · next hkind =>
    refine r.advance_ensures.mono fun t s hread => ⟨?_, hread⟩
    rw [hread.peek?_eq, Option.map_some, Option.some.injEq] at hkind
    exact hkind
  · exact trivial

theorem ReadTo.advance_yields {r s : Reader} {t : Token} (h : r.ReadTo [t] s) :
    r.advance.Yields t s := by
  obtain ⟨source, pending, vs⟩ := r
  obtain ⟨source', ts, vs'⟩ := s
  have hsource : source' = source := h.source_eq
  have hpending : pending = t :: ts := h.pending_eq
  have hseen : vs' = vs.note t := h.seen_eq
  subst hsource hpending hseen
  exact ⟨rfl, rfl⟩

theorem ReadTo.expectOr_yields {r s : Reader} {t : Token} (h : r.ReadTo [t] s) {kind : Kind}
    (hkind : t.kind = kind) (error : Error) : (r.expectOr kind error).Yields t s := by
  rw [expectOr, if_pos (by rw [h.peek?_eq, Option.map_some, hkind])]
  exact h.advance_yields

end Reader

/-! ## The relation -/

/-- What is read: a whole formula at a power, or the tails of a left side at a power. -/
inductive Stage where
  | whole (power : BindingPower)
  | tails (left : Formula) (power : BindingPower)

/-- `rules.Reads stage r f rest`: the stage can be read from `r`, its formula is `f`, and
`rest` is what it leaves. -/
inductive Rules.Reads (rules : Rules) : Stage → Reader → Formula → Reader → Prop where
  | name {power r t s f rest} (hrule : rules.head? .identifier = some .name)
      (hkind : t.kind = .identifier) (hstep : r.ReadTo [t] s)
      (hon : rules.Reads (.tails (.atom t.text t.span) power) s f rest) :
      rules.Reads (.whole power) r f rest
  | negation {power r sign s operand u f rest} (hrule : rules.head? .tilde = some .negation)
      (hkind : sign.kind = .tilde) (hstep : r.ReadTo [sign] s)
      (hoperand : rules.Reads (.whole .unary) s operand u)
      (hon : rules.Reads (.tails (.negation operand (sign.span.through operand.span)) power) u f
        rest) :
      rules.Reads (.whole power) r f rest
  | group {power r opening s inner u closing v f rest}
      (hrule : rules.head? .openParen = some .group)
      (hopening : opening.kind = .openParen) (hopen : r.ReadTo [opening] s)
      (hinner : rules.Reads (.whole .lowest) s inner u)
      (hclosing : closing.kind = .closeParen) (hclose : u.ReadTo [closing] v)
      (hon : rules.Reads (.tails (.grouped inner (opening.span.through closing.span)) power) v f
        rest) :
      rules.Reads (.whole power) r f rest
  | stop {left power r} (hstop : rules.tailAt? power left r = none) :
      rules.Reads (.tails left power) r left r
  | connective {left power r tighter c sign s right u f rest}
      (htail : rules.tailAt? power left r = some (tighter, .connective))
      (hkind : sign.kind = c.kind) (hstep : r.ReadTo [sign] s)
      (hright : rules.Reads (.whole tighter) s right u)
      (hon : rules.Reads (.tails (.binary c left right (left.span.through right.span)) power) u f
        rest) :
      rules.Reads (.tails left power) r f rest
  | assignment {left power r tighter sign s value u f rest}
      (htail : rules.tailAt? power left r = some (tighter, .assignment))
      (hkind : sign.kind = .assignment) (hstep : r.ReadTo [sign] s)
      (hvalue : rules.Reads (.whole .lowest) s value u)
      (hon : rules.Reads (.tails (.assignment left value (left.span.through value.span)) power) u f
        rest) :
      rules.Reads (.tails left power) r f rest

/-! ## What is answered can be read -/

/-- A rule that begins a formula leaves a left side whose tails complete the formula. -/
theorem HeadRule.read_reads (rules : Rules) (rule : HeadRule) (r : Reader)
    (hrule : (r.peek?.bind fun t => rules.head? t.kind) = some rule)
    {operand : OperandReader r.pending.length}
    (h : ∀ power s shorter, (operand power s shorter).Ensures (rules.Reads (.whole power) s)) :
    (rule.read r operand).Ensures fun left s => ∀ power f rest,
      rules.Reads (.tails left power) s f rest → rules.Reads (.whole power) r f rest := by
  cases rule with
  | name =>
    refine ((r.expectOr_ensures _ _).mono fun t s ⟨hkind, hread⟩ power f rest hon => ?_).map
    rw [hread.peek?_eq, Option.bind_some, hkind] at hrule
    exact .name hrule hkind hread hon
  | negation =>
    refine r.advance_ensures.andThen fun sign s shorter hread => ?_
    split
    · next hkind =>
      rw [hread.peek?_eq, Option.bind_some, hkind] at hrule
      refine ((h _ _ _).mono fun f u hoperand => ?_).map
      exact fun power g rest hon => .negation hrule hkind hread hoperand hon
    · exact trivial
  | group =>
    refine (r.expectOr_ensures _ _).andThen fun opening s _ ⟨hopening, hopen⟩ => ?_
    rw [hopen.peek?_eq, Option.bind_some, hopening] at hrule
    refine (h _ _ _).andThen fun inner u _ hinner => ?_
    refine ((u.expectOr_ensures _ _).mono fun closing v ⟨hclosing, hclose⟩ => ?_).map
    exact fun power f rest hon => .group hrule hopening hopen hinner hclosing hclose hon

/-- A rule by which a left side goes on leaves a longer one whose tails are the rest of its
own. -/
theorem TailRule.read_reads (rules : Rules) (rule : TailRule) (left : Formula)
    (power tighter : BindingPower) (r : Reader)
    (htail : rules.tailAt? power left r = some (tighter, rule))
    {operand : OperandReader r.pending.length}
    (h : ∀ power s shorter, (operand power s shorter).Ensures (rules.Reads (.whole power) s)) :
    (rule.read left tighter r operand).Ensures fun longer s => ∀ f rest,
      rules.Reads (.tails longer power) s f rest → rules.Reads (.tails left power) r f rest := by
  cases rule with
  | connective =>
    refine r.advance_ensures.andThen fun sign s _ hread => ?_
    split
    · next c hsign =>
      refine ((h _ _ _).mono fun right u hright f rest hon => ?_).map
      refine .connective htail ?_ hread hright hon
      unfold Connective.ofToken at hsign
      split at hsign
      · next hkind =>
        cases hsign
        exact Connective.ofKind?_eq_some_iff.1 hkind
      · cases hsign
    · exact trivial
  | assignment =>
    refine (r.expectOr_ensures _ _).andThen fun sign s _ ⟨hkind, hread⟩ => ?_
    exact ((h _ _ _).mono fun value u hvalue f rest hon =>
      .assignment htail hkind hread hvalue hon).map

namespace Rules

variable (rules : Rules)

theorem readTails_reads (power : BindingPower) (left : Formula) (r : Reader)
    {operand : OperandReader r.pending.length}
    (h : ∀ power s shorter, (operand power s shorter).Ensures (rules.Reads (.whole power) s)) :
    (rules.readTails power left r operand).Ensures (rules.Reads (.tails left power) r) := by
  fun_induction readTails rules power left r operand with
  | case1 left r operand hstop => exact .stop hstop
  | case2 => exact trivial
  | case3 left r operand tighter rule htail longer s shorter hread ih =>
    have hlonger := rule.read_reads rules left power tighter r htail h
    rw [hread] at hlonger
    exact ((ih fun power u _ => h power u _).mono hlonger).widen _

theorem readStep_reads (power : BindingPower) (r : Reader)
    {operand : OperandReader r.pending.length}
    (h : ∀ power s shorter, (operand power s shorter).Ensures (rules.Reads (.whole power) s)) :
    (rules.readStep power r operand).Ensures (rules.Reads (.whole power) r) := by
  unfold readStep
  split
  · exact trivial
  · next rule hrule =>
    have hhead := rule.read_reads rules r hrule h
    split
    · exact trivial
    · next left s shorter hread =>
      rw [hread] at hhead
      have htails := rules.readTails_reads power left s fun p u (hu : u.pending.length < _) =>
        h p u (Nat.lt_trans hu shorter)
      exact (htails.mono (hhead power)).widen _

theorem read_reads (power : BindingPower) (r : Reader) :
    (rules.read power r).Ensures (rules.Reads (.whole power) r) := by
  fun_induction read rules power r with
  | case1 power r ih => exact rules.readStep_reads power r ih

/-! ## What can be read is answered -/

/-- Reads the tails of a left side, their operands by the tables. -/
def readOn (power : BindingPower) (left : Formula) (r : Reader) :
    Outcome Formula (r.pending.length + 1) :=
  rules.readTails power left r fun p s _ => rules.read p s

theorem read_yields {power : BindingPower} {r s rest : Reader} {t : Token} {rule : HeadRule}
    {left f : Formula} (ht : r.peek? = some t) (hrule : rules.head? t.kind = some rule)
    (hread : (rules.readHead rule r).Yields left s)
    (hon : (rules.readOn power left s).Yields f rest) : (rules.read power r).Yields f rest := by
  rw [read, readStep]
  split
  · next hnone =>
    rw [ht, Option.bind_some, hrule] at hnone
    cases hnone
  · next rule' hsome =>
    rw [ht, Option.bind_some, hrule] at hsome
    cases hsome
    obtain ⟨shorter, hread⟩ := Outcome.yields_iff.1 hread
    split
    · next hfail => cases hfail.symm.trans hread
    · next hdone =>
      cases hdone.symm.trans hread
      exact hon.widen shorter

theorem readOn_yields_of_stop {power : BindingPower} {left : Formula} {r : Reader}
    (hstop : rules.tailAt? power left r = none) : (rules.readOn power left r).Yields left r := by
  rw [readOn, readTails]
  split
  · exact ⟨rfl, rfl⟩
  · next hsome => cases hsome.symm.trans hstop

theorem readOn_yields {power tighter : BindingPower} {left longer f : Formula} {r s rest : Reader}
    {rule : TailRule} (htail : rules.tailAt? power left r = some (tighter, rule))
    (hread : (rules.readTail rule left tighter r).Yields longer s)
    (hon : (rules.readOn power longer s).Yields f rest) :
    (rules.readOn power left r).Yields f rest := by
  rw [readOn, readTails]
  split
  · next hnone => cases hnone.symm.trans htail
  · next hsome =>
    cases hsome.symm.trans htail
    obtain ⟨shorter, hread⟩ := Outcome.yields_iff.1 hread
    split
    · next hfail => cases hfail.symm.trans hread
    · next hdone =>
      cases hdone.symm.trans hread
      exact hon.widen (Nat.le_succ_of_le shorter)

/-- The stage is answered by `f` and leaves `rest`. -/
def Answers : Stage → Reader → Formula → Reader → Prop
  | .whole power, r, f, rest => (rules.read power r).Yields f rest
  | .tails left power, r, f, rest => (rules.readOn power left r).Yields f rest

variable {rules}

theorem Reads.answers {stage : Stage} {r rest : Reader} {f : Formula}
    (h : rules.Reads stage r f rest) : rules.Answers stage r f rest := by
  induction h with
  | name hrule hkind hstep _ ih =>
    refine rules.read_yields hstep.peek?_eq (hkind ▸ hrule) ?_ ih
    exact (hstep.expectOr_yields hkind _).map _
  | negation hrule hkind hstep _ _ ihOperand ih =>
    refine rules.read_yields hstep.peek?_eq (hkind ▸ hrule) ?_ ih
    refine hstep.advance_yields.andThen fun _ => ?_
    rw [if_pos hkind]
    exact Outcome.Yields.map ihOperand _
  | group hrule hopening hopen _ hclosing hclose _ ihInner ih =>
    refine rules.read_yields hopen.peek?_eq (hopening ▸ hrule) ?_ ih
    refine (hopen.expectOr_yields hopening _).andThen fun _ => ?_
    refine Outcome.Yields.andThen ihInner fun _ => ?_
    exact (hclose.expectOr_yields hclosing _).map _
  | stop hstop => exact rules.readOn_yields_of_stop hstop
  | connective htail hkind hstep _ _ ihRight ih =>
    refine rules.readOn_yields htail ?_ ih
    refine hstep.advance_yields.andThen fun _ => ?_
    rw [Connective.ofToken, Connective.ofKind?_eq_some_iff.2 hkind]
    exact Outcome.Yields.map ihRight _
  | assignment htail hkind hstep _ _ ihValue ih =>
    refine rules.readOn_yields htail ?_ ih
    refine (hstep.expectOr_yields hkind _).andThen fun _ => ?_
    exact Outcome.Yields.map ihValue _

/-- A formula is read exactly if the relation says so. -/
theorem read_yields_iff {power : BindingPower} {r rest : Reader} {f : Formula} :
    (rules.read power r).Yields f rest ↔ rules.Reads (.whole power) r f rest := by
  constructor
  · intro h
    obtain ⟨shorter, h⟩ := Outcome.yields_iff.1 h
    have hreads := rules.read_reads power r
    rwa [h] at hreads
  · exact Reads.answers

theorem Reads.unique {power : BindingPower} {r rest rest' : Reader} {f f' : Formula}
    (h : rules.Reads (.whole power) r f rest) (h' : rules.Reads (.whole power) r f' rest') :
    f = f' ∧ rest = rest' :=
  (read_yields_iff.2 h).unique (read_yields_iff.2 h')

end Rules

/-! ## Whole sources -/

theorem parse_eq_ok_iff {vs vs' : Variables} {source : String} {f : Formula} :
    parse vs source = (.ok f, vs') ↔
      Rules.standard.Reads (.whole .lowest) (Reader.start vs source) f ⟨source, [], vs'⟩ := by
  rw [← Rules.read_yields_iff, parse]
  have hfollows := Rules.standard.read_follows .lowest (Reader.start vs source)
  split
  · next error rest hread =>
    rw [hread]
    constructor
    · intro h
      cases h
    · exact False.elim
  · next f' rest _ hread =>
    rw [hread] at hfollows ⊢
    obtain ⟨ts, hts⟩ := hfollows
    have hsource : rest.source = source := hts.source_eq
    obtain ⟨_, pending, seen⟩ := rest
    subst hsource
    cases pending with
    | nil =>
      constructor
      · intro h
        cases h
        exact ⟨rfl, rfl⟩
      · intro h
        obtain ⟨rfl, hrest⟩ := h
        cases hrest
        rfl
    | cons t ts =>
      constructor
      · intro h
        cases h
      -- A token is left over, which a reader without pending tokens does not have.
      · intro h
        obtain ⟨-, hrest⟩ := h
        cases hrest

/-- A formula that has been read has used up all tokens of its source. -/
theorem readTo_of_parse {vs vs' : Variables} {source : String} {f : Formula}
    (h : parse vs source = (.ok f, vs')) :
    (Reader.start vs source).ReadTo (tokens source) ⟨source, [], vs'⟩ := by
  have hfollows := Rules.standard.read_follows .lowest (Reader.start vs source)
  obtain ⟨_, hread⟩ := Outcome.yields_iff.1 (Rules.read_yields_iff.2 (parse_eq_ok_iff.1 h))
  rw [hread] at hfollows
  obtain ⟨ts, hts⟩ := hfollows
  have hpending : tokens source = ts := by simpa [Outcome.rest, Reader.start] using hts.pending_eq
  rwa [hpending]

theorem seen_of_parse {vs vs' : Variables} {source : String} {f : Formula}
    (h : parse vs source = (.ok f, vs')) : vs' = vs.clear.noteAll (tokens source) :=
  (readTo_of_parse h).seen_eq

end TruthTable
