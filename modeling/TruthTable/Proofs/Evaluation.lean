import TruthTable.Formula.Evaluation
import TruthTable.Proofs.Shape

/-!
# What evaluation computes

`Formula.Holds` is the classical reading of a formula, with truth values for all names.
Evaluation has the truth values by slot and may fail, and `evaluate_eq` says what it does
in terms of the leaves of the formula, the names and assignments in it: the first leaf
without a value decides the error, and if there is none the value is the classical one.

With a value for each name, only an assignment is without one, and the first assignment
among the leaves is the first one of all parts of the formula (`evaluate_map`).
-/

namespace TruthTable

/-! ## Truth -/

/-- What the connective says of two propositions. -/
def Connective.Joins : Connective → Prop → Prop → Prop
  | and, p, q => p ∧ q
  | or, p, q => p ∨ q
  | implies, p, q => p → q

instance Connective.decidableJoins (p q : Prop) [Decidable p] [Decidable q] :
    (c : Connective) → Decidable (c.Joins p q)
  | and => inferInstanceAs (Decidable (p ∧ q))
  | or => inferInstanceAs (Decidable (p ∨ q))
  | implies => inferInstanceAs (Decidable (p → q))

theorem Connective.apply_decide (c : Connective) (p q : Prop) [Decidable p] [Decidable q] :
    c.apply (decide p) (decide q) = decide (c.Joins p q) := by
  cases c with
  | and => exact (Bool.decide_and p q).symm
  | or => exact (Bool.decide_or p q).symm
  | implies => by_cases hp : p <;> by_cases hq : q <;> simp [apply, Joins, hp, hq]

theorem Connective.joins_congr (c : Connective) {p p' q q' : Prop} (hp : p ↔ p') (hq : q ↔ q') :
    c.Joins p q ↔ c.Joins p' q' := by
  rw [propext hp, propext hq]

namespace Formula

/-- The formula is true when the names in it have the truth values `ρ`. An assignment never
is. -/
def Holds (ρ : String → Bool) : Formula → Prop
  | atom name _ => ρ name = true
  | negation operand _ => ¬operand.Holds ρ
  | binary c left right _ => c.Joins (left.Holds ρ) (right.Holds ρ)
  | grouped inner _ => inner.Holds ρ
  | assignment _ _ _ => False

instance decidableHolds (ρ : String → Bool) : (f : Formula) → Decidable (f.Holds ρ)
  | atom name _ => inferInstanceAs (Decidable (ρ name = true))
  | negation operand _ =>
    have := decidableHolds ρ operand
    inferInstanceAs (Decidable (¬operand.Holds ρ))
  | binary c left right _ =>
    have := decidableHolds ρ left
    have := decidableHolds ρ right
    inferInstanceAs (Decidable (c.Joins (left.Holds ρ) (right.Holds ρ)))
  | grouped inner _ => decidableHolds ρ inner
  | assignment _ _ _ => inferInstanceAs (Decidable False)

/-- Truth depends on the names in the formula only. -/
theorem holds_congr {ρ σ : String → Bool} {f : Formula} (h : ∀ name ∈ f.names, ρ name = σ name) :
    f.Holds ρ ↔ f.Holds σ := by
  induction f with
  | atom name span => rw [Holds, Holds, h name (List.mem_singleton_self name)]
  | negation operand span ih => exact not_congr (ih h)
  | binary c left right span ihLeft ihRight =>
    have hleft := ihLeft fun name hname => h name (List.mem_append_left _ hname)
    have hright := ihRight fun name hname => h name (List.mem_append_right _ hname)
    exact c.joins_congr hleft hright
  | grouped inner span ih => exact ih h
  | assignment target value span _ _ => exact Iff.rfl

/-- Truth does not depend on the places of the parts. -/
theorem holds_bare (f : Formula) (ρ : String → Bool) : f.bare.Holds ρ ↔ f.Holds ρ := by
  induction f with
  | atom name span => exact Iff.rfl
  | negation operand span ih => exact not_congr ih
  | binary c left right span ihLeft ihRight => exact c.joins_congr ihLeft ihRight
  | grouped inner span ih => exact ih
  | assignment target value span _ _ => exact Iff.rfl

end Formula

/-! ## Leaves without a value -/

namespace Formula

/-- The names and assignments in the formula, from left to right. What is assigned, and to
what, is not looked into. -/
def leaves : Formula → List Formula
  | atom name span => [atom name span]
  | negation operand _ => operand.leaves
  | binary _ left right _ => left.leaves ++ right.leaves
  | grouped inner _ => inner.leaves
  | assignment target value span => [assignment target value span]

/-- The first assignment in the formula. -/
def firstAssignment? (f : Formula) : Option Formula := f.preorder.find? isAssignment

@[simp] theorem firstAssignment?_binary (c : Connective) (left right : Formula) (span : Span) :
    (binary c left right span).firstAssignment?
      = left.firstAssignment?.or right.firstAssignment? := by
  rw [firstAssignment?, firstAssignment?, firstAssignment?, ← List.find?_append]
  rfl

theorem firstAssignment?_bare (f : Formula) :
    f.bare.firstAssignment? = f.firstAssignment?.map bare := by
  induction f with
  | atom name span => rfl
  | negation operand span ih => exact ih
  | binary c left right span ihLeft ihRight =>
    rw [bare, firstAssignment?_binary, ihLeft, ihRight, firstAssignment?_binary, Option.map_or]
  | grouped inner span ih => exact ih
  | assignment target value span _ _ => rfl

/-- The first assignment in the formula is the first one among the leaves. -/
theorem find?_leaves (f : Formula) : f.leaves.find? isAssignment = f.firstAssignment? := by
  induction f with
  | atom name span => rfl
  | negation operand span ih => exact ih
  | binary c left right span ihLeft ihRight =>
    rw [leaves, List.find?_append, ihLeft, ihRight, firstAssignment?_binary]
  | grouped inner span ih => exact ih
  | assignment target value span _ _ => rfl

end Formula

namespace Variables

/-- The truth value of a name, or `false` if the valuation has none for it. -/
def lookup (vs : Variables) (valuation : Valuation) (name : String) : Bool :=
  (vs.value? valuation name).getD false

/-- What is wrong with a leaf: a name may have no value, and an assignment never has one. -/
def fault? (vs : Variables) (valuation : Valuation) : Formula → Option Error
  | .atom name span =>
    if (vs.value? valuation name).isSome then none else some ⟨.unknownVariable name, span.start⟩
  | .assignment _ _ span => some ⟨.noTruthValue "Assignment", span.start⟩
  | _ => none

/-- The first leaf with a fault. -/
def firstFault? (vs : Variables) (valuation : Valuation) (f : Formula) : Option Error :=
  f.leaves.findSome? (vs.fault? valuation)

theorem firstFault?_atom (vs : Variables) (valuation : Valuation) (name : String) (span : Span) :
    vs.firstFault? valuation (.atom name span) = vs.fault? valuation (.atom name span) :=
  List.findSome?_singleton

theorem firstFault?_binary (vs : Variables) (valuation : Valuation) (c : Connective)
    (left right : Formula) (span : Span) :
    vs.firstFault? valuation (.binary c left right span)
      = (vs.firstFault? valuation left).or (vs.firstFault? valuation right) :=
  List.findSome?_append

end Variables

namespace Formula

/-- Evaluation fails with the first fault of a leaf, and gives the classical value if there
is no fault. -/
theorem evaluate_eq (vs : Variables) (valuation : Valuation) (f : Formula) :
    f.evaluate vs valuation =
      match vs.firstFault? valuation f with
      | some error => .error error
      | none => .ok (decide (f.Holds (vs.lookup valuation))) := by
  induction f with
  | atom name span =>
    rw [vs.firstFault?_atom, evaluate, Variables.fault?]
    cases hvalue : vs.value? valuation name with
    | none => rfl
    | some value =>
      have hlookup : vs.lookup valuation name = value := by rw [Variables.lookup, hvalue]; rfl
      show Except.ok value = .ok (decide (vs.lookup valuation name = true))
      rw [hlookup, Bool.decide_eq_true]
  | negation operand span ih =>
    have hfault : vs.firstFault? valuation (negation operand span)
        = vs.firstFault? valuation operand := rfl
    rw [evaluate, ih, hfault]
    cases vs.firstFault? valuation operand with
    | some error => rfl
    | none => exact congrArg Except.ok decide_not.symm
  | binary c left right span ihLeft ihRight =>
    rw [evaluate, ihLeft, ihRight, vs.firstFault?_binary]
    -- The right side is evaluated whatever the left side's value is, but not after a fault.
    cases vs.firstFault? valuation left with
    | some error => rfl
    | none =>
      cases vs.firstFault? valuation right with
      | some error => rfl
      | none => exact congrArg Except.ok (c.apply_decide _ _)
  | grouped inner span ih => exact ih
  | assignment target value span _ _ => rfl

end Formula

/-! ## The values that are read -/

/-- Where there is no fault, every name in the formula has a value. -/
theorem Variables.exists_value_of_firstFault? {vs : Variables} {valuation : Valuation} {f : Formula}
    (h : vs.firstFault? valuation f = none) :
    ∀ name ∈ f.names, ∃ value, vs.value? valuation name = some value := by
  induction f with
  | atom name span =>
    intro other hother
    obtain rfl := List.mem_singleton.1 hother
    rw [firstFault?_atom, fault?] at h
    split at h
    · next hsome => exact Option.isSome_iff_exists.1 hsome
    · cases h
  | negation operand span ih => exact ih h
  | binary c left right span ihLeft ihRight =>
    rw [firstFault?_binary, Option.or_eq_none_iff] at h
    intro name hname
    rcases List.mem_append.1 hname with hleft | hright
    · exact ihLeft h.1 name hleft
    · exact ihRight h.2 name hright
  | grouped inner span ih => exact ih h
  | assignment target value span _ _ => cases h

namespace Formula

variable {vs vs' : Variables} {valuation other : Valuation} {f : Formula}

theorem evaluate_eq_error_iff {error : Error} :
    f.evaluate vs valuation = .error error ↔ vs.firstFault? valuation f = some error := by
  rw [evaluate_eq]
  cases vs.firstFault? valuation f <;> simp

theorem evaluate_eq_ok_iff {value : Bool} :
    f.evaluate vs valuation = .ok value ↔
      vs.firstFault? valuation f = none ∧ value = decide (f.Holds (vs.lookup valuation)) := by
  rw [evaluate_eq]
  cases vs.firstFault? valuation f <;> simp [eq_comm]

/-- Evaluation reads the values of the names that occur, and nothing else. -/
theorem evaluate_congr
    (h : ∀ name ∈ f.names, vs'.value? other name = vs.value? valuation name) :
    f.evaluate vs' other = f.evaluate vs valuation := by
  induction f with
  | atom name span => rw [evaluate, evaluate, h name (List.mem_singleton_self name)]
  | negation operand span ih => rw [evaluate, evaluate, ih h]
  | binary c left right span ihLeft ihRight =>
    rw [evaluate, evaluate, ihLeft fun name hname => h name (List.mem_append_left _ hname),
      ihRight fun name hname => h name (List.mem_append_right _ hname)]
  | grouped inner span ih => exact ih h
  | assignment target value span _ _ => rfl

end Formula

/-! ## Valuations of all names -/

namespace Variables

theorem value?_map {vs : Variables} {name : String} (h : name ∈ vs.names) (ρ : String → Bool) :
    vs.value? (vs.names.map ρ) name = some (ρ name) := by
  cases hslot : vs.slot? name with
  | none => exact absurd h (slot?_eq_none_iff.1 hslot)
  | some slot =>
    obtain ⟨hlt, hname, -⟩ := List.idxOf?_eq_some_iff.1 hslot
    rw [value?, hslot, Option.bind_some, List.getElem?_map, List.getElem?_eq_getElem hlt, hname]
    rfl

theorem lookup_map {vs : Variables} {name : String} (h : name ∈ vs.names) (ρ : String → Bool) :
    vs.lookup (vs.names.map ρ) name = ρ name := by
  rw [lookup, value?_map h]
  rfl

/-- A valuation of distinct names is one that takes values by name. -/
theorem map_lookup {vs : Variables} (hnodup : vs.names.Nodup) {valuation : Valuation}
    (hlength : valuation.length = vs.count) : vs.names.map (vs.lookup valuation) = valuation := by
  apply List.ext_getElem (by rw [List.length_map, hlength, count])
  intro slot hlt hlt'
  have hslot : vs.slot? vs.names[slot] = some slot :=
    (slot?_eq_some_iff hnodup).2 (List.getElem?_eq_getElem _)
  rw [List.getElem_map, lookup, value?, hslot, Option.bind_some, List.getElem?_eq_getElem hlt']
  rfl

/-- With values for the names in a formula, only assignments are at fault. -/
theorem firstFault?_map {vs : Variables} {f : Formula} (h : ∀ name ∈ f.names, name ∈ vs.names)
    (ρ : String → Bool) :
    vs.firstFault? (vs.names.map ρ) f =
      f.firstAssignment?.map fun g => ⟨.noTruthValue "Assignment", g.span.start⟩ := by
  rw [← f.find?_leaves]
  induction f with
  | atom name span =>
    rw [firstFault?_atom, fault?, value?_map (h name (List.mem_singleton_self name))]
    rfl
  | negation operand span ih => exact ih h
  | binary c left right span ihLeft ihRight =>
    rw [firstFault?_binary, ihLeft fun name hname => h name (List.mem_append_left _ hname),
      ihRight fun name hname => h name (List.mem_append_right _ hname), Formula.leaves,
      List.find?_append, Option.map_or]
  | grouped inner span ih => exact ih h
  | assignment target value span _ _ => rfl

end Variables

/-- By slot or by name, the truth values of the names in a formula are the same. -/
theorem Formula.holds_lookup_map {vs : Variables} {f : Formula}
    (h : ∀ name ∈ f.names, name ∈ vs.names) (ρ : String → Bool) :
    f.Holds (vs.lookup (vs.names.map ρ)) ↔ f.Holds ρ :=
  holds_congr fun name hname => Variables.lookup_map (h name hname) ρ

/-- Under values for all names, evaluation fails at the first assignment and gives the
classical value if there is none. -/
theorem Formula.evaluate_map {vs : Variables} {f : Formula} (h : ∀ name ∈ f.names, name ∈ vs.names)
    (ρ : String → Bool) :
    f.evaluate vs (vs.names.map ρ) =
      match f.firstAssignment? with
      | some g => .error ⟨.noTruthValue "Assignment", g.span.start⟩
      | none => .ok (decide (f.Holds ρ)) := by
  rw [evaluate_eq, Variables.firstFault?_map h]
  cases f.firstAssignment? with
  | some g => rfl
  | none => exact congrArg Except.ok (decide_eq_decide.2 (holds_lookup_map h ρ))

end TruthTable
