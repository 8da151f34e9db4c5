import TruthTable.Proofs.Evaluation
import TruthTable.Proofs.Slots

/-!
# Where evaluation fails

Evaluation goes through the leaves of a formula from left to right, and no truth value that has
been found keeps it from going on: the right side of a connective is looked at even if the left
side decides the value. So a fault of a leaf shows wherever the leaf stands, and of several faults
the first one does.

Whether a leaf is at fault depends on the slots and on how many truth values there are, but not on
which ones (`Variables.Faulty`). Two valuations of the same length therefore fail at the same leaf,
or under both there is a value.

Main statement: `Formula.evaluate_outcome`.
-/

namespace TruthTable

/-- The error that tells of a leaf without a value. -/
def Formula.complaint : Formula → Error
  | atom name span => ⟨.unknownVariable name, span.start⟩
  | f => ⟨.noTruthValue f.nodeName, f.span.start⟩

namespace Variables

/-- The leaf has no value under `length` truth values: it is an assignment, or a name that has no
slot or a slot beyond them. -/
def Faulty (vs : Variables) (length : Nat) : Formula → Prop
  | .atom name _ => vs.slot? name = none ∨ ∃ slot, vs.slot? name = some slot ∧ length ≤ slot
  | .assignment _ _ _ => True
  | _ => False

variable {vs : Variables} {valuation other : Valuation}

theorem value?_eq_none_iff {name : String} :
    vs.value? valuation name = none ↔
      vs.slot? name = none ∨ ∃ slot, vs.slot? name = some slot ∧ valuation.length ≤ slot := by
  rw [value?]
  cases vs.slot? name with
  | none => simp
  | some slot => simp

theorem fault?_eq_some_iff {leaf : Formula} {error : Error} :
    vs.fault? valuation leaf = some error ↔
      vs.Faulty valuation.length leaf ∧ error = leaf.complaint := by
  cases leaf with
  | atom name span =>
    rw [fault?, Faulty, ← value?_eq_none_iff]
    cases vs.value? valuation name with
    | none => simp [Formula.complaint, eq_comm]
    | some value => simp
  | assignment target value span =>
    simp [fault?, Faulty, Formula.complaint, Formula.nodeName, Formula.span, eq_comm]
  | negation operand span => simp [fault?, Faulty]
  | binary c left right span => simp [fault?, Faulty]
  | grouped inner span => simp [fault?, Faulty]

theorem fault?_eq_none_iff {leaf : Formula} :
    vs.fault? valuation leaf = none ↔ ¬vs.Faulty valuation.length leaf := by
  constructor
  · intro hnone hfaulty
    have hsome : vs.fault? valuation leaf = some leaf.complaint :=
      fault?_eq_some_iff.2 ⟨hfaulty, rfl⟩
    rw [hnone] at hsome
    cases hsome
  · intro hsound
    by_contra hne
    obtain ⟨error, herror⟩ := Option.ne_none_iff_exists'.1 hne
    exact hsound (fault?_eq_some_iff.1 herror).1

/-- The first fault is that of a leaf, and no leaf before it is at fault. -/
theorem firstFault?_eq_some_iff {f : Formula} {error : Error} :
    vs.firstFault? valuation f = some error ↔
      ∃ before leaf after, f.leaves = before ++ leaf :: after ∧
        (∀ g ∈ before, ¬vs.Faulty valuation.length g) ∧
        vs.Faulty valuation.length leaf ∧ error = leaf.complaint := by
  rw [firstFault?, List.findSome?_eq_some_iff]
  simp only [fault?_eq_some_iff, fault?_eq_none_iff]
  constructor
  · rintro ⟨before, leaf, after, hleaves, hfault, hbefore⟩
    exact ⟨before, leaf, after, hleaves, hbefore, hfault⟩
  · rintro ⟨before, leaf, after, hleaves, hbefore, hfault⟩
    exact ⟨before, leaf, after, hleaves, hfault, hbefore⟩

theorem firstFault?_eq_none_iff {f : Formula} :
    vs.firstFault? valuation f = none ↔ ∀ leaf ∈ f.leaves, ¬vs.Faulty valuation.length leaf := by
  rw [firstFault?, List.findSome?_eq_none_iff]
  simp only [fault?_eq_none_iff]

/-- For the faults, truth values only count. -/
theorem firstFault?_congr (h : other.length = valuation.length) (f : Formula) :
    vs.firstFault? other f = vs.firstFault? valuation f := by
  apply Option.ext
  intro error
  rw [firstFault?_eq_some_iff, firstFault?_eq_some_iff, h]

end Variables

namespace Formula

variable {vs : Variables} {valuation : Valuation} {f : Formula}

/-- Without a fault, the value is the classical one for all truth values of names that are those
in the slots. -/
theorem evaluate_of_sound (h : ∀ leaf ∈ f.leaves, ¬vs.Faulty valuation.length leaf)
    {ρ : String → Bool}
    (hρ : ∀ name slot value, vs.slot? name = some slot → valuation[slot]? = some value →
      ρ name = value) :
    f.evaluate vs valuation = .ok (decide (f.Holds ρ)) := by
  have hnone := Variables.firstFault?_eq_none_iff.2 h
  have hlookup : ∀ name ∈ f.names, ρ name = vs.lookup valuation name := by
    intro name hname
    obtain ⟨value, hvalue⟩ := Variables.exists_value_of_firstFault? hnone name hname
    obtain ⟨slot, hslot, hget⟩ := Option.bind_eq_some_iff.1 hvalue
    rw [hρ name slot value hslot hget, Variables.lookup, hvalue]
    rfl
  exact evaluate_eq_ok_iff.2 ⟨hnone, decide_eq_decide.2 (holds_congr hlookup)⟩

/-- What evaluation does, for any formula, slots and truth values: it fails if a leaf is at fault
and only then, and the first such leaf decides the error. Otherwise it gives the classical value.
So valuations of the same length fail alike or not at all; and a value is the same under all
valuations with the same truth values in the slots of the names that occur, and under all that go
on where this one ends. -/
theorem evaluate_outcome (vs : Variables) (valuation : Valuation) (f : Formula) :
    ((∃ error, f.evaluate vs valuation = .error error) ↔
      ∃ leaf ∈ f.leaves, vs.Faulty valuation.length leaf) ∧
    (∀ before leaf after, f.leaves = before ++ leaf :: after →
      (∀ g ∈ before, ¬vs.Faulty valuation.length g) → vs.Faulty valuation.length leaf →
      f.evaluate vs valuation = .error leaf.complaint) ∧
    ((∀ leaf ∈ f.leaves, ¬vs.Faulty valuation.length leaf) → ∀ ρ : String → Bool,
      (∀ name slot value, vs.slot? name = some slot → valuation[slot]? = some value →
        ρ name = value) →
      f.evaluate vs valuation = .ok (decide (f.Holds ρ))) ∧
    (∀ other : Valuation, other.length = valuation.length →
      (∃ value value', f.evaluate vs valuation = .ok value ∧ f.evaluate vs other = .ok value') ∨
      ∃ error, f.evaluate vs valuation = .error error ∧ f.evaluate vs other = .error error) ∧
    ∀ value, f.evaluate vs valuation = .ok value →
      (∀ other : Valuation, (∀ name ∈ f.names, ∀ slot, vs.slot? name = some slot →
        other[slot]? = valuation[slot]?) → f.evaluate vs other = .ok value) ∧
      ∀ more, f.evaluate vs (valuation ++ more) = .ok value := by
  refine ⟨?_, ?_, fun h ρ hρ => evaluate_of_sound h hρ, ?_, ?_⟩
  · constructor
    · rintro ⟨error, herror⟩
      obtain ⟨before, leaf, after, hleaves, -, hfaulty, -⟩ :=
        Variables.firstFault?_eq_some_iff.1 (evaluate_eq_error_iff.1 herror)
      exact ⟨leaf, by simp [hleaves], hfaulty⟩
    · rintro ⟨leaf, hleaf, hfaulty⟩
      cases hfault : vs.firstFault? valuation f with
      | none => exact absurd hfaulty (Variables.firstFault?_eq_none_iff.1 hfault leaf hleaf)
      | some error => exact ⟨error, evaluate_eq_error_iff.2 hfault⟩
  · intro before leaf after hleaves hbefore hfaulty
    exact evaluate_eq_error_iff.2
      (Variables.firstFault?_eq_some_iff.2 ⟨before, leaf, after, hleaves, hbefore, hfaulty, rfl⟩)
  · intro other hlength
    have hsame : vs.firstFault? other f = vs.firstFault? valuation f :=
      Variables.firstFault?_congr hlength f
    cases hfault : vs.firstFault? valuation f with
    | none =>
      exact Or.inl ⟨_, _, evaluate_eq_ok_iff.2 ⟨hfault, rfl⟩,
        evaluate_eq_ok_iff.2 ⟨hsame.trans hfault, rfl⟩⟩
    | some error =>
      exact Or.inr ⟨error, evaluate_eq_error_iff.2 hfault,
        evaluate_eq_error_iff.2 (hsame.trans hfault)⟩
  · intro value hvalue
    refine ⟨fun other hother => ?_, fun more => ?_⟩
    · rw [← hvalue]
      exact evaluate_congr fun name hname => Option.bind_congr (hother name hname)
    · exact evaluate_of_prefix List.prefix_rfl (List.prefix_append valuation more) hvalue

/-- That `p` is false does not hide that `q` has no slot; with a slot for it there is a value, and
one truth value more makes no difference. -/
theorem evaluate_fault_behind_false :
    (binary .and (atom "p" ⟨0, 1⟩) (atom "q" ⟨6, 7⟩) ⟨0, 7⟩).evaluate ⟨["p"]⟩ [false]
        = .error ⟨.unknownVariable "q", 6⟩ ∧
      (binary .and (atom "p" ⟨0, 1⟩) (atom "q" ⟨6, 7⟩) ⟨0, 7⟩).evaluate ⟨["p", "q"]⟩
        ([false, true] ++ [true]) = .ok false := by
  constructor
  · obtain ⟨-, hfirst, -⟩ := evaluate_outcome ⟨["p"]⟩ [false]
      (binary .and (atom "p" ⟨0, 1⟩) (atom "q" ⟨6, 7⟩) ⟨0, 7⟩)
    refine hfirst [atom "p" ⟨0, 1⟩] (atom "q" ⟨6, 7⟩) [] rfl ?_ (Or.inl rfl)
    simp [Variables.Faulty, Variables.slot?]
  · obtain ⟨-, -, -, -, hvalue⟩ := evaluate_outcome ⟨["p", "q"]⟩ [false, true]
      (binary .and (atom "p" ⟨0, 1⟩) (atom "q" ⟨6, 7⟩) ⟨0, 7⟩)
    exact (hvalue false rfl).2 [true]

end Formula

end TruthTable
