import TruthTable.Proofs.Reading.Relation

/-!
# Binding powers in what is read

Whatever the tables, a formula that is read is written with the tokens that reading it
has used up (`Reads.exists_readTo`), it is settled where it ends (`Reads.settled`), and
its signs stand in it as their binding powers have it (`Reads.obeys`).

`Obeys` is the law of powers: left of a connective stands nothing that binds looser, right
of it only what binds tighter. It follows from what each right side was settled at, which is
why the invariant of the loop (`Stage.Obeys`) is about the token after the left side and not
only about the left side itself.

Main statement: `Rules.read_obeys_powers`.
-/

namespace TruthTable

namespace BindingPower

theorem le_iff {p q : BindingPower} : p ≤ q ↔ p.rank ≤ q.rank := Iff.rfl

theorem not_lt {p q : BindingPower} : ¬p < q ↔ q ≤ p := Nat.not_lt

theorem lowest_le (p : BindingPower) : lowest ≤ p := Nat.zero_le _

theorem not_unary_lt (p : BindingPower) : ¬unary < p := by cases p <;> decide

end BindingPower

namespace Formula

/-- The sign between the two sides of the formula, if it has sides. -/
def sign? : Formula → Option Kind
  | binary c _ _ _ => some c.kind
  | assignment _ _ _ => some .assignment
  | atom _ _ | negation _ _ | grouped _ _ => none

theorem isOperand_iff {f : Formula} : f.isOperand = true ↔ f.sign? = none := by
  cases f <;> simp [isOperand, sign?]

theorem isAssignment_iff {f : Formula} : f.isAssignment = true ↔ f.sign? = some .assignment := by
  cases f with
  | binary c _ _ _ => cases c <;> simp [isAssignment, sign?, Connective.kind]
  | _ => simp [isAssignment, sign?]

/-- The signs in the formula stand as the binding powers of the rules have it. -/
def Obeys (rules : Rules) : Formula → Prop
  | atom _ _ => True
  | negation operand _ => operand.sign? = none ∧ operand.Obeys rules
  | binary c left right _ =>
    (∀ k ∈ left.sign?, k ≠ .assignment ∧ rules.power c.kind ≤ rules.power k) ∧
      (∀ k ∈ right.sign?, rules.power c.kind < rules.power k) ∧
      left.Obeys rules ∧ right.Obeys rules
  | grouped inner _ => inner.Obeys rules
  | assignment target value _ => target.isAtom = true ∧ target.Obeys rules ∧ value.Obeys rules

end Formula

namespace Rules

variable {rules : Rules}

/-- Nothing goes on with `f`, read at `power`: the next token binds no tighter, or it is the
sign of assignment after something that is no name. -/
def Settled (rules : Rules) (power : BindingPower) (f : Formula) (r : Reader) : Prop :=
  ∀ t ∈ r.peek?, rules.power t.kind ≤ power ∨ (t.kind = .assignment ∧ f.isAtom = false)

theorem power_eq {kind : Kind} {tighter : BindingPower} {rule : TailRule}
    (h : rules.tail? kind = some (tighter, rule)) : rules.power kind = tighter := by
  rw [power, h]

theorem tailAt?_eq_some_iff {power tighter : BindingPower} {rule : TailRule} {left : Formula}
    {r : Reader} :
    rules.tailAt? power left r = some (tighter, rule) ↔
      ∃ t, r.peek? = some t ∧ rules.tail? t.kind = some (tighter, rule) ∧ power < tighter ∧
        (t.kind = .assignment → left.isAtom = true) := by
  unfold tailAt?
  split
  · next hnone => simp [hnone]
  · next t hsome =>
    simp only [hsome, Option.some.injEq, exists_eq_left']
    split
    · next hnone => simp [hnone]
    · next tighter' rule' htail =>
      rw [htail]
      split
      · next hgo =>
        constructor
        · intro h
          cases h
          exact ⟨rfl, hgo⟩
        · intro h
          exact h.1
      · next hstop =>
        constructor
        · intro h
          cases h
        · intro h
          obtain ⟨hrule, hgo⟩ := h
          cases hrule
          exact absurd hgo hstop

theorem tailAt?_eq_none_iff {power : BindingPower} {left : Formula} {r : Reader} :
    rules.tailAt? power left r = none ↔ rules.Settled power left r := by
  constructor
  · intro hnone t ht
    cases htail : rules.tail? t.kind with
    | none =>
      refine Or.inl ?_
      rw [Rules.power, htail]
      exact BindingPower.lowest_le power
    | some step =>
      obtain ⟨tighter, rule⟩ := step
      rw [power_eq htail]
      by_cases hlt : power < tighter
      · refine Or.inr (Decidable.byContradiction fun hnot => ?_)
        have hgo : t.kind = .assignment → left.isAtom = true := fun hkind => by
          simpa [hkind] using hnot
        have hsome := tailAt?_eq_some_iff.2 ⟨t, ht, htail, hlt, hgo⟩
        cases hsome.symm.trans hnone
      · exact Or.inl (BindingPower.not_lt.1 hlt)
  · intro hsettled
    cases hsome : rules.tailAt? power left r with
    | none => rfl
    | some step =>
      obtain ⟨tighter, rule⟩ := step
      obtain ⟨t, ht, htail, hlt, hgo⟩ := tailAt?_eq_some_iff.1 hsome
      rcases hsettled t ht with hle | ⟨hkind, hatom⟩
      · rw [power_eq htail] at hle
        exact absurd hlt (BindingPower.not_lt.2 hle)
      · rw [hgo hkind] at hatom
        cases hatom

end Rules

/-! ## Tokens and lexemes -/

/-- The lexemes that have been read of the stage before it begins. -/
def Stage.lexemes : Stage → List Lexeme
  | .whole _ => []
  | .tails left _ => left.lexemes

/-- The power at which the stage is read. -/
def Stage.power : Stage → BindingPower
  | .whole power => power
  | .tails _ power => power

theorem Reader.ReadTo.proper {r s : Reader} {ts : List Token} (h : r.ReadTo ts s)
    (hproper : ∀ t ∈ r.pending, t.Proper) :
    (∀ t ∈ ts, t.Proper) ∧ ∀ t ∈ s.pending, t.Proper := by
  rw [h.pending_eq] at hproper
  exact ⟨fun t ht => hproper t (List.mem_append_left _ ht),
    fun t ht => hproper t (List.mem_append_right _ ht)⟩

/-- The lexeme of one token that has been read for its kind. -/
theorem Reader.ReadTo.lexeme_eq {r s : Reader} {t : Token} (h : r.ReadTo [t] s)
    (hproper : ∀ t ∈ r.pending, t.Proper) {kind : Kind} (hkind : t.kind = kind)
    (hsign : kind ≠ .identifier) : t.lexeme = .sign kind :=
  ((h.proper hproper).1 t (List.mem_singleton_self t)).lexeme_eq_sign hkind hsign

namespace Rules

variable {rules : Rules}

/-- A formula is written with the tokens that reading it has used up, in their order. -/
theorem Reads.exists_readTo {stage : Stage} {r rest : Reader} {f : Formula}
    (h : rules.Reads stage r f rest) (hproper : ∀ t ∈ r.pending, t.Proper) :
    ∃ ts, r.ReadTo ts rest ∧ f.lexemes = stage.lexemes ++ ts.map Token.lexeme := by
  induction h with
  | @name power r t s f rest hrule hkind hstep _ ih =>
    obtain ⟨ts, hts, hlex⟩ := ih (hstep.proper hproper).2
    refine ⟨[t] ++ ts, hstep.trans hts, ?_⟩
    rw [hlex, List.map_append, List.map_singleton, Token.lexeme_eq_name hkind]
    rfl
  | @negation power r sign s operand u f rest hrule hkind hstep _ _ ihOperand ih =>
    have hs := (hstep.proper hproper).2
    obtain ⟨ts, hts, hoperand⟩ := ihOperand hs
    obtain ⟨us, hus, hlex⟩ := ih (hts.proper hs).2
    refine ⟨[sign] ++ ts ++ us, (hstep.trans hts).trans hus, ?_⟩
    have hsign := hstep.lexeme_eq hproper hkind (by decide)
    simp only [hlex, hoperand, hsign, Stage.lexemes, Formula.lexemes, List.map_append,
      List.map_singleton]
    rfl
  | @group power r opening s inner u closing v f rest hrule hopening hopen _ hclosing hclose _
      ihInner ih =>
    have hs := (hopen.proper hproper).2
    obtain ⟨ts, hts, hinner⟩ := ihInner hs
    have hu := (hts.proper hs).2
    obtain ⟨us, hus, hlex⟩ := ih (hclose.proper hu).2
    refine ⟨[opening] ++ ts ++ [closing] ++ us, ((hopen.trans hts).trans hclose).trans hus, ?_⟩
    have hfirst := hopen.lexeme_eq hproper hopening (by decide)
    have hlast := hclose.lexeme_eq hu hclosing (by decide)
    simp only [hlex, hinner, hfirst, hlast, Stage.lexemes, Formula.lexemes, List.map_append,
      List.map_singleton]
    rfl
  | @stop left power r hstop => exact ⟨[], .refl r, (List.append_nil _).symm⟩
  | @connective left power r tighter c sign s right u f rest htail hkind hstep _ _ ihRight ih =>
    have hs := (hstep.proper hproper).2
    obtain ⟨ts, hts, hright⟩ := ihRight hs
    obtain ⟨us, hus, hlex⟩ := ih (hts.proper hs).2
    refine ⟨[sign] ++ ts ++ us, (hstep.trans hts).trans hus, ?_⟩
    have hsign := hstep.lexeme_eq hproper hkind c.kind_ne_identifier
    simp only [hlex, hright, hsign, Stage.lexemes, Formula.lexemes, List.map_append,
      List.map_singleton, List.append_assoc]
    rfl
  | @assignment left power r tighter sign s value u f rest htail hkind hstep _ _ ihValue ih =>
    have hs := (hstep.proper hproper).2
    obtain ⟨ts, hts, hvalue⟩ := ihValue hs
    obtain ⟨us, hus, hlex⟩ := ih (hts.proper hs).2
    refine ⟨[sign] ++ ts ++ us, (hstep.trans hts).trans hus, ?_⟩
    have hsign := hstep.lexeme_eq hproper hkind (by decide)
    simp only [hlex, hvalue, hsign, Stage.lexemes, Formula.lexemes, List.map_append,
      List.map_singleton, List.append_assoc]
    rfl

/-! ## Powers -/

/-- Nothing goes on with a formula where reading it has ended. -/
theorem Reads.settled {stage : Stage} {r rest : Reader} {f : Formula}
    (h : rules.Reads stage r f rest) : rules.Settled stage.power f rest := by
  induction h with
  | stop hstop => exact tailAt?_eq_none_iff.1 hstop
  | name _ _ _ _ ih => exact ih
  | negation _ _ _ _ _ _ ih => exact ih
  | group _ _ _ _ _ _ _ _ ih => exact ih
  | connective _ _ _ _ _ _ ih => exact ih
  | assignment _ _ _ _ _ _ ih => exact ih

/-- The power at which the right side of a sign is read. -/
def rightPower (rules : Rules) (kind : Kind) : BindingPower :=
  if kind = .assignment then .lowest else rules.power kind

end Rules

/-- A left side obeys the powers, binds tighter than the power of the stage, and its own right
side is settled where the left side ends. -/
def Stage.Obeys (rules : Rules) : Stage → Reader → Prop
  | .whole _, _ => True
  | .tails left power, r =>
    left.Obeys rules ∧
      ∀ k ∈ left.sign?, power < rules.power k ∧
        ∀ t ∈ r.peek?, t.kind = .assignment ∨ rules.power t.kind ≤ rules.rightPower k

theorem Stage.obeys_tails_of_sign? {rules : Rules} {left : Formula} {power : BindingPower}
    {r : Reader} (hleft : left.Obeys rules) (hsign : left.sign? = none) :
    (Stage.tails left power).Obeys rules r := by
  refine ⟨hleft, fun k hk => ?_⟩
  rw [hsign] at hk
  cases hk

namespace Rules

variable {rules : Rules}

theorem Settled.le_rightPower {power : BindingPower} {f : Formula} {r : Reader} {k : Kind}
    (h : rules.Settled power f r) (hpower : rules.rightPower k = power) :
    ∀ t ∈ r.peek?, t.kind = .assignment ∨ rules.power t.kind ≤ rules.rightPower k := by
  intro t ht
  rw [hpower]
  rcases h t ht with hle | ⟨hkind, _⟩
  · exact Or.inr hle
  · exact Or.inl hkind

/-- A formula that is read obeys the powers, and its sign binds tighter than the power at
which it was read. -/
theorem Reads.obeys {stage : Stage} {r rest : Reader} {f : Formula}
    (h : rules.Reads stage r f rest) (hstage : stage.Obeys rules r) :
    f.Obeys rules ∧ ∀ k ∈ f.sign?, stage.power < rules.power k := by
  induction h with
  | name _ _ _ _ ih => exact ih (Stage.obeys_tails_of_sign? trivial rfl)
  | @negation power r sign s operand u f rest _ _ _ hoperand _ ihOperand ih =>
    obtain ⟨hobeys, hbound⟩ := ihOperand trivial
    have hsign : operand.sign? = none := by
      rw [Option.eq_none_iff_forall_not_mem]
      exact fun k hk => BindingPower.not_unary_lt _ (hbound k hk)
    exact ih (Stage.obeys_tails_of_sign? ⟨hsign, hobeys⟩ rfl)
  | group _ _ _ _ _ _ _ ihInner ih => exact ih (Stage.obeys_tails_of_sign? (ihInner trivial).1 rfl)
  | stop => exact ⟨hstage.1, fun k hk => (hstage.2 k hk).1⟩
  | @connective left power r tighter c sign s right u f rest htail hkind hstep hright _ ihRight
      ih =>
    obtain ⟨t, ht, hrule, hlt, _⟩ := tailAt?_eq_some_iff.1 htail
    have hsign : t = sign := Option.some.inj (ht.symm.trans hstep.peek?_eq)
    subst hsign
    have htighter : rules.power c.kind = tighter := hkind ▸ power_eq hrule
    have hassign : c.kind ≠ .assignment := by cases c <;> decide
    obtain ⟨hobeys, hbound⟩ := ihRight trivial
    refine ih ⟨⟨fun k hk => ?_, htighter ▸ hbound, hstage.1, hobeys⟩, fun k hk => ?_⟩
    -- The right side of `left` was settled at a token that goes on here, so it was read at a
    -- power no lower than that of the token.
    · have hle := ((hstage.2 k hk).2 t ht).resolve_left (hkind ▸ hassign)
      rw [hkind, htighter, rightPower] at hle
      split at hle
      · exact absurd (BindingPower.le_iff.1 hle) (Nat.not_le.2 (Nat.zero_lt_of_lt hlt))
      · next hne => exact ⟨hne, htighter ▸ hle⟩
    -- The new right side was read at the power of its own sign.
    · cases hk
      refine ⟨htighter ▸ hlt, hright.settled.le_rightPower ?_⟩
      rw [rightPower, if_neg hassign, htighter]
      rfl
  | @assignment left power r tighter sign s value u f rest htail hkind hstep hvalue _ ihValue ih =>
    obtain ⟨t, ht, hrule, hlt, hatom⟩ := tailAt?_eq_some_iff.1 htail
    have hsign : t = sign := Option.some.inj (ht.symm.trans hstep.peek?_eq)
    subst hsign
    refine ih ⟨⟨hatom hkind, hstage.1, (ihValue trivial).1⟩, fun k hk => ?_⟩
    cases hk
    refine ⟨?_, hvalue.settled.le_rightPower rfl⟩
    rw [← hkind, power_eq hrule]
    exact hlt

end Rules

/-- Every part of a formula that obeys the powers does so. -/
theorem Formula.Obeys.of_mem_preorder {rules : Rules} {f g : Formula} (h : f.Obeys rules)
    (hg : g ∈ f.preorder) : g.Obeys rules := by
  induction f with
  | atom name span =>
    obtain rfl := List.mem_singleton.1 hg
    exact h
  | negation operand span ih =>
    rcases List.mem_cons.1 hg with rfl | hg
    · exact h
    · exact ih h.2 hg
  | binary c left right span ihLeft ihRight =>
    rcases List.mem_cons.1 hg with rfl | hg
    · exact h
    · rcases List.mem_append.1 hg with hg | hg
      · exact ihLeft h.2.2.1 hg
      · exact ihRight h.2.2.2 hg
  | grouped inner span ih =>
    rcases List.mem_cons.1 hg with rfl | hg
    · exact h
    · exact ih h hg
  | assignment target value span ihTarget ihValue =>
    rcases List.mem_cons.1 hg with rfl | hg
    · exact h
    · rcases List.mem_append.1 hg with hg | hg
      · exact ihTarget h.2.1 hg
      · exact ihValue h.2.2 hg

/-! ## The law -/

/-- A reader at a place in a source, with the variables that have been read so far. -/
def Reader.ofStream (s : TokenStream) (vs : Variables) : Reader := ⟨s.source, s.toList, vs⟩

theorem Reader.proper_of_mem_ofStream {s : TokenStream} {vs : Variables} {t : Token}
    (h : t ∈ (ofStream s vs).pending) : t.Proper :=
  TokenStream.proper_of_mem_toList s.source s.rest s.offset t h

theorem Outcome.yields_rest {α : Type} {limit : Nat} {o : Outcome α limit} {value : α}
    (h : o.result = .ok value) : o.Yields value o.rest := by
  cases o with
  | done _ _ _ => exact ⟨Except.ok.inj h, rfl⟩
  | failed _ _ => cases h

/-- Whatever the tables, the place in the source and the power at which a formula is read there:
the formula is written with the tokens that are used up. A negation has an operand without a
sign. Left of a connective stands no assignment and no connective that binds looser, right of
it only what binds tighter, and only a name is assigned to. The sign of the formula itself
binds tighter than the power. And the next token does not bind tighter, or it is the sign of
assignment after something that is no name. -/
theorem Rules.read_obeys_powers (rules : Rules) (s : TokenStream) (vs : Variables)
    (power : BindingPower) (f : Formula)
    (h : (rules.read power (.ofStream s vs)).result = .ok f) :
    (∃ ts, (Reader.ofStream s vs).ReadTo ts (rules.read power (.ofStream s vs)).rest ∧
      f.lexemes = ts.map Token.lexeme) ∧
    (∀ operand span, .negation operand span ∈ f.preorder → operand.isOperand = true) ∧
    (∀ c left right span, .binary c left right span ∈ f.preorder →
      left.isAssignment = false ∧
      (∀ k ∈ left.sign?, rules.power c.kind ≤ rules.power k) ∧
      ∀ k ∈ right.sign?, rules.power c.kind < rules.power k) ∧
    (∀ target value span, .assignment target value span ∈ f.preorder → target.isAtom = true) ∧
    (∀ k ∈ f.sign?, power < rules.power k) ∧
    ∀ t ∈ (rules.read power (.ofStream s vs)).rest.peek?,
      rules.power t.kind ≤ power ∨ (t.kind = .assignment ∧ f.isAtom = false) := by
  have hreads := read_yields_iff.1 (Outcome.yields_rest h)
  obtain ⟨hobeys, hsign⟩ := hreads.obeys trivial
  refine ⟨?_, ?_, ?_, ?_, hsign, hreads.settled⟩
  · exact hreads.exists_readTo fun t ht => Reader.proper_of_mem_ofStream ht
  · intro operand span hmem
    exact Formula.isOperand_iff.2 (hobeys.of_mem_preorder hmem).1
  · intro c left right span hmem
    obtain ⟨hleft, hright, -⟩ := hobeys.of_mem_preorder hmem
    refine ⟨?_, fun k hk => (hleft k hk).2, hright⟩
    rw [← Bool.not_eq_true, Formula.isAssignment_iff]
    exact fun hassign => (hleft _ hassign).1 rfl
  · intro target value span hmem
    exact (hobeys.of_mem_preorder hmem).1

/-- With `∨` looser than `∧`, a chain of both is grouped to the right. -/
theorem Rules.read_looser_or :
    ∃ left right, ((standard.withTail .or .assignment .connective).read .lowest
        (.ofStream (.start "p ∨ q ∧ r") .empty)).result = .ok (.binary .or left right ⟨0, 13⟩) ∧
      ∀ k ∈ right.sign?, BindingPower.assignment <
        (standard.withTail .or .assignment .connective).power k := by
  have hoption : ((standard.withTail .or .assignment .connective).read .lowest
      (.ofStream (.start "p ∨ q ∧ r") .empty)).result.toOption
        = some (.binary .or (.atom "p" ⟨0, 1⟩)
          (.binary .and (.atom "q" ⟨6, 7⟩) (.atom "r" ⟨12, 13⟩) ⟨6, 13⟩) ⟨0, 13⟩) := by
    decide +kernel
  have hread : ∀ {result : Except Error Formula} {f}, result.toOption = some f → result = .ok f := by
    intro result f h
    cases result <;> cases h
    rfl
  obtain ⟨-, -, hbinary, -⟩ := read_obeys_powers _ _ _ _ _ (hread hoption)
  exact ⟨_, _, hread hoption, (hbinary _ _ _ _ List.mem_cons_self).2.2⟩

end TruthTable
