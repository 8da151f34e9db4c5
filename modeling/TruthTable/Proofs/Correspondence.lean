import Mathlib.Data.List.Forall2
import TruthTable.Proofs.Evaluation
import TruthTable.Proofs.Scan

/-!
# Sources with corresponding tokens

Two sources are read along the same way when their tokens correspond one to one and
corresponding tokens have the same kind: neither the rules nor the scan look at more than
kinds. `R` is any such correspondence, so what it says about texts and places carries over
from the tokens to all that is made of them.

What is read from the one source has an `Alike` from the other: the same shape, with the
text and the span of each part taken from corresponding tokens. The two readers are never
compared by offset. `Rules.Reads.alike` keeps their pending tokens in correspondence, by
induction on how the first formula is read.

Main statements: `parse_alike`, `FirstIllegal.alike`.
-/

namespace TruthTable

/-- Two formulas of the same shape that are made of corresponding tokens. -/
inductive Formula.Alike (R : Token → Token → Prop) : Formula → Formula → Prop where
  | atom {t t'} (ht : R t t') (hkind : t.kind = .identifier) :
      Alike R (.atom t.text t.span) (.atom t'.text t'.span)
  | negation {sign sign' f f'} (hsign : R sign sign') (hoperand : Alike R f f') :
      Alike R (.negation f (sign.span.through f.span)) (.negation f' (sign'.span.through f'.span))
  | binary {left left' right right'} (c : Connective) (hleft : Alike R left left')
      (hright : Alike R right right') :
      Alike R (.binary c left right (left.span.through right.span))
        (.binary c left' right' (left'.span.through right'.span))
  | grouped {opening opening' f f' closing closing'} (hopening : R opening opening')
      (hinner : Alike R f f') (hclosing : R closing closing') :
      Alike R (.grouped f (opening.span.through closing.span))
        (.grouped f' (opening'.span.through closing'.span))
  | assignment {target target' value value'} (htarget : Alike R target target')
      (hvalue : Alike R value value') :
      Alike R (.assignment target value (target.span.through value.span))
        (.assignment target' value' (target'.span.through value'.span))

/-- Two stages of the same power, with left sides that are alike. -/
inductive Stage.Alike (R : Token → Token → Prop) : Stage → Stage → Prop where
  | whole (power : BindingPower) : Alike R (.whole power) (.whole power)
  | tails {left left'} (hleft : left.Alike R left') (power : BindingPower) :
      Alike R (.tails left power) (.tails left' power)

section Related

variable {α β : Type} {S : α → β → Prop}

/-- Related first choices and related second choices are related. -/
theorem rel_or {a b : Option α} {a' b' : Option β} (ha : Option.Rel S a a')
    (hb : Option.Rel S b b') : Option.Rel S (a.or b) (a'.or b') := by
  cases ha with
  | none => exact hb
  | some h => exact .some h

/-- What stands at the same place of related lists is related. -/
theorem rel_getElem? {xs : List α} {ys : List β} (h : List.Forall₂ S xs ys) (i : Nat) :
    Option.Rel S xs[i]? ys[i]? := by
  induction h generalizing i with
  | nil => exact .none
  | cons hx _ ih =>
    cases i with
    | zero => exact .some hx
    | succ i => exact ih i

end Related

variable {R : Token → Token → Prop}

/-! ## Formulas alike -/

namespace Formula.Alike

variable {f f' : Formula}

theorem isAtom_eq (h : f.Alike R f') : f'.isAtom = f.isAtom := by cases h <;> rfl

/-- Two formulas alike start where two corresponding tokens do. -/
theorem exists_start (h : f.Alike R f') :
    ∃ t t', R t t' ∧ f.span.start = t.span.start ∧ f'.span.start = t'.span.start := by
  induction h with
  | atom ht _ => exact ⟨_, _, ht, rfl, rfl⟩
  | negation hsign _ _ => exact ⟨_, _, hsign, rfl, rfl⟩
  | binary _ _ _ ihLeft _ => exact ihLeft
  | grouped hopening _ _ _ => exact ⟨_, _, hopening, rfl, rfl⟩
  | assignment _ _ ihTarget _ => exact ihTarget

/-- The first assignments of two formulas alike are alike, or neither has one. -/
theorem firstAssignment? (h : f.Alike R f') :
    Option.Rel (Alike R) f.firstAssignment? f'.firstAssignment? := by
  induction h with
  | atom _ _ => exact .none
  | negation _ _ ih => exact ih
  | binary c _ _ ihLeft ihRight =>
    rw [firstAssignment?_binary, firstAssignment?_binary]
    exact rel_or ihLeft ihRight
  | grouped _ _ _ ih => exact ih
  | assignment htarget hvalue _ _ => exact .some (.assignment htarget hvalue)

/-- Under truth values that agree on corresponding names, formulas alike are equally true. -/
theorem holds_iff (h : f.Alike R f') {ρ ρ' : String → Bool}
    (hρ : ∀ t t', R t t' → t.kind = .identifier → ρ' t'.text = ρ t.text) :
    f'.Holds ρ' ↔ f.Holds ρ := by
  induction h with
  | atom ht hkind => rw [Holds, Holds, hρ _ _ ht hkind]
  | negation _ _ ih => exact not_congr ih
  | binary c _ _ ihLeft ihRight => exact c.joins_congr ihLeft ihRight
  | grouped _ _ _ ih => exact ih
  | assignment _ _ _ _ => exact Iff.rfl

end Formula.Alike

/-! ## Reading along -/

/-- Where one reader reads a token, another one with corresponding tokens reads one too. -/
theorem Reader.ReadTo.alike {r s r' : Reader} {t : Token} (h : r.ReadTo [t] s)
    (hpending : List.Forall₂ R r.pending r'.pending) :
    ∃ t' s', r'.ReadTo [t'] s' ∧ R t t' ∧ List.Forall₂ R s.pending s'.pending := by
  rw [h.pending_eq, List.singleton_append, List.forall₂_cons_left_iff] at hpending
  obtain ⟨t', ts', ht, hts, hpending'⟩ := hpending
  exact ⟨t', ⟨r'.source, ts', r'.seen.note t'⟩, ⟨rfl, hpending', rfl⟩, ht, hts⟩

section Kinds

variable (hR : ∀ t t', R t t' → t'.kind = t.kind)
include hR

namespace Rules

/-- Whether a left side goes on, and by which rule, depends on the kind of the next token. -/
theorem tailAt?_alike {rules : Rules} {power : BindingPower} {left left' : Formula} {r r' : Reader}
    (hleft : left.Alike R left') (hpending : List.Forall₂ R r.pending r'.pending) :
    rules.tailAt? power left' r' = rules.tailAt? power left r := by
  obtain ⟨_, pending, _⟩ := r
  obtain ⟨_, pending', _⟩ := r'
  cases hpending with
  | nil => rfl
  | cons ht _ =>
    simp only [tailAt?, Reader.peek?, List.head?_cons]
    rw [hR _ _ ht, hleft.isAtom_eq]

/-- What is read from one reader is read alike from another one with corresponding tokens, and
the tokens that are left correspond. -/
theorem Reads.alike {rules : Rules} {stage stage' : Stage} {r r' rest : Reader} {f : Formula}
    (h : rules.Reads stage r f rest) (hstage : stage.Alike R stage')
    (hpending : List.Forall₂ R r.pending r'.pending) :
    ∃ f' rest', rules.Reads stage' r' f' rest' ∧ f.Alike R f' ∧
      List.Forall₂ R rest.pending rest'.pending := by
  induction h generalizing stage' r' with
  | name hrule hkind hstep _ ih =>
    cases hstage
    obtain ⟨t', s', hstep', ht, hs⟩ := hstep.alike hpending
    obtain ⟨f', rest', hon, halike⟩ := ih (.tails (.atom ht hkind) _) hs
    exact ⟨f', rest', .name hrule ((hR _ _ ht).trans hkind) hstep' hon, halike⟩
  | negation hrule hkind hstep _ _ ihOperand ih =>
    cases hstage
    obtain ⟨sign', s', hstep', hsign, hs⟩ := hstep.alike hpending
    obtain ⟨operand', u', hoperand', hoperand, hu⟩ := ihOperand (.whole _) hs
    obtain ⟨f', rest', hon, halike⟩ := ih (.tails (.negation hsign hoperand) _) hu
    exact ⟨f', rest', .negation hrule ((hR _ _ hsign).trans hkind) hstep' hoperand' hon, halike⟩
  | group hrule hopening hopen _ hclosing hclose _ ihInner ih =>
    cases hstage
    obtain ⟨opening', s', hopen', hfirst, hs⟩ := hopen.alike hpending
    obtain ⟨inner', u', hinner', hinner, hu⟩ := ihInner (.whole _) hs
    obtain ⟨closing', v', hclose', hlast, hv⟩ := hclose.alike hu
    obtain ⟨f', rest', hon, halike⟩ := ih (.tails (.grouped hfirst hinner hlast) _) hv
    have hopening' := (hR _ _ hfirst).trans hopening
    have hclosing' := (hR _ _ hlast).trans hclosing
    exact ⟨f', rest', .group hrule hopening' hopen' hinner' hclosing' hclose' hon, halike⟩
  | stop hstop =>
    cases hstage with
    | tails hleft power =>
      exact ⟨_, r', .stop ((tailAt?_alike hR hleft hpending).trans hstop), hleft, hpending⟩
  | connective htail hkind hstep _ _ ihRight ih =>
    cases hstage with
    | tails hleft power =>
      obtain ⟨sign', s', hstep', hsign, hs⟩ := hstep.alike hpending
      obtain ⟨right', u', hright', hright, hu⟩ := ihRight (.whole _) hs
      obtain ⟨f', rest', hon, halike⟩ := ih (.tails (.binary _ hleft hright) _) hu
      have htail' := (tailAt?_alike hR hleft hpending).trans htail
      exact ⟨f', rest', .connective htail' ((hR _ _ hsign).trans hkind) hstep' hright' hon, halike⟩
  | assignment htail hkind hstep _ _ ihValue ih =>
    cases hstage with
    | tails hleft power =>
      obtain ⟨sign', s', hstep', hsign, hs⟩ := hstep.alike hpending
      obtain ⟨value', u', hvalue', hvalue, hu⟩ := ihValue (.whole _) hs
      obtain ⟨f', rest', hon, halike⟩ := ih (.tails (.assignment hleft hvalue) _) hu
      have htail' := (tailAt?_alike hR hleft hpending).trans htail
      exact ⟨f', rest', .assignment htail' ((hR _ _ hsign).trans hkind) hstep' hvalue' hon, halike⟩

end Rules

/-- Of two sources with corresponding tokens, both are read if one is, and alike. -/
theorem parse_alike {vs vs' : Variables} {source source' : String} {f : Formula}
    (htokens : List.Forall₂ R (tokens source) (tokens source'))
    (h : (parse vs source).1 = .ok f) : ∃ f', (parse vs' source').1 = .ok f' ∧ f.Alike R f' := by
  have hparse : parse vs source = (.ok f, (parse vs source).2) := Prod.ext h rfl
  have hstart : List.Forall₂ R (Reader.start vs source).pending
      (Reader.start vs' source').pending := htokens
  obtain ⟨f', rest', hreads, halike, hrest⟩ :=
    (parse_eq_ok_iff.1 hparse).alike hR (.whole _) hstart
  have hpending : rest'.pending = [] := List.forall₂_nil_left_iff.1 hrest
  obtain ⟨ts, hts, -⟩ := hreads.exists_readTo fun t ht => proper_of_mem_tokens ht
  have hsource : rest'.source = source' := hts.source_eq
  obtain ⟨_, _, seen⟩ := rest'
  cases hpending
  cases hsource
  exact ⟨f', congrArg Prod.fst (parse_eq_ok_iff.2 hreads), halike⟩

/-! ## Scanning along -/

variable {before before' : List Token} {next next' : Option Token}

theorem operandDue_alike (h : List.Forall₂ R before before') :
    operandDue before' = operandDue before := by
  cases h with
  | nil => rfl
  | cons ht _ => rw [operandDue, operandDue, hR _ _ ht]

theorem assignable_alike (h : List.Forall₂ R before before') :
    assignable before' = assignable before := by
  cases h with
  | nil => rfl
  | cons ht hbefore =>
    rw [assignable, assignable, hR _ _ ht]
    cases hbefore with
    | nil => rfl
    | cons ht _ => rw [formulaDue, formulaDue, hR _ _ ht]

theorem depth_alike (h : List.Forall₂ R before before') : depth before' = depth before := by
  induction h with
  | nil => rfl
  | cons ht _ ih => rw [depth, depth, hR _ _ ht, ih]

/-- What may stand at a place depends on the kinds there and before it. -/
theorem legal_alike (hbefore : List.Forall₂ R before before') (hnext : Option.Rel R next next') :
    legal before' next' = legal before next := by
  cases hnext with
  | none => rw [legal, legal, operandDue_alike hR hbefore, depth_alike hR hbefore]
  | some ht =>
    simp only [legal]
    rw [operandDue_alike hR hbefore, depth_alike hR hbefore, assignable_alike hR hbefore, hR _ _ ht]

variable {ts ts' : List Token}

theorem legalAt_alike (h : List.Forall₂ R ts ts') (i : Nat) : LegalAt ts' i ↔ LegalAt ts i := by
  have hbefore := List.forall₂_reverse_iff.2 (List.forall₂_take i h)
  rw [LegalAt, LegalAt, legal_alike hR hbefore (rel_getElem? h i)]

/-- The first illegal place is the same among corresponding tokens. -/
theorem FirstIllegal.alike {i : Nat} (h : FirstIllegal ts i) (hts : List.Forall₂ R ts ts') :
    FirstIllegal ts' i where
  le := hts.length_eq ▸ h.le
  illegal := fun hlegal => h.illegal ((legalAt_alike hR hts i).1 hlegal)
  legal_before := fun j hj => (legalAt_alike hR hts j).2 (h.legal_before j hj)

/-- At the same place of corresponding tokens the same is wrong: a group is not closed, or what
stands there is unexpected. -/
theorem faultAt_alike (source source' : String) (h : List.Forall₂ R ts ts') (i : Nat) :
    (faultAt source ts i = ⟨.unclosedGroup, startOf source ts[i]?⟩ ∧
        faultAt source' ts' i = ⟨.unclosedGroup, startOf source' ts'[i]?⟩) ∨
      faultAt source ts i = ⟨unexpectedCause ts[i]?, startOf source ts[i]?⟩ ∧
        faultAt source' ts' i = ⟨unexpectedCause ts'[i]?, startOf source' ts'[i]?⟩ := by
  have hbefore := List.forall₂_reverse_iff.2 (List.forall₂_take i h)
  rw [faultAt, faultAt, fault, fault, operandDue_alike hR hbefore, depth_alike hR hbefore]
  split
  · exact Or.inl ⟨rfl, rfl⟩
  · exact Or.inr ⟨rfl, rfl⟩

end Kinds

end TruthTable
