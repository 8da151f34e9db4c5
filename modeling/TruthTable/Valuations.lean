import TruthTable.Formula.Evaluation
import TruthTable.Memory

/-!
# All valuations

A `Valuations` is a cursor through the valuations of a number of variables, in the order
of a truth table: the leftmost variable changes slowest and every column begins with
`true`. The rows are numbered by a 64-bit word from zero, and the value of a variable in
a row is read off one bit of its number, so up to 63 variables can be enumerated. To keep all
of the valuations takes a block of memory with room for each of them, and with that the limit
is lower: `allValuations?` panics where there is no such block.

Main statements: `remaining_of_next?`, each step leaves one valuation less;
`toList_of_next?_eq_some` and `toList_of_next?_eq_none`, the valuations left are the
next one and those after it; `foldl_eq_foldl_toList`, going through a cursor is going
through that list.
-/

namespace TruthTable

/-- A cursor through the valuations of `variableCount` variables, before the row `nextRow`
of `rowCount`. -/
structure Valuations where
  variableCount : Nat
  nextRow : UInt64
  rowCount : UInt64
deriving DecidableEq

namespace Valuations

/-- Row numbers have to fit in 64 bits together with their count. -/
def variableLimit : Nat := 63

/-- The cursor before the first valuation, unless there are too many variables to count its
rows. -/
def start? (variableCount : Nat) : Option Valuations :=
  if variableCount ≤ variableLimit then
    some ⟨variableCount, 0, 1 <<< UInt64.ofNat variableCount⟩
  else
    none

/-- The valuation in a row: a variable is true where its bit of the row number is zero, the
last variable having the lowest bit. -/
def row (variableCount : Nat) (number : UInt64) : Valuation :=
  (List.range variableCount).map fun i =>
    (number >>> UInt64.ofNat (variableCount - 1 - i)) &&& 1 == 0

/-- How many valuations are left. -/
def remaining (c : Valuations) : Nat := c.rowCount.toNat - c.nextRow.toNat

/-- The next valuation and the cursor after it; nothing when none is left. -/
def next? (c : Valuations) : Option (Valuation × Valuations) :=
  if c.nextRow < c.rowCount then
    some (row c.variableCount c.nextRow, { c with nextRow := c.nextRow + 1 })
  else
    none

/-- The valuations that are left, in order. -/
def toList (c : Valuations) : List Valuation :=
  (List.range c.remaining).map fun k => row c.variableCount (c.nextRow + UInt64.ofNat k)

/-! ## One step -/

theorem toNat_succ_of_lt {m n : UInt64} (h : m < n) : (m + 1).toNat = m.toNat + 1 := by
  have hlt := UInt64.lt_iff_toNat_lt.1 h
  have hbound := n.toNat_lt
  rw [UInt64.toNat_add]
  exact Nat.mod_eq_of_lt (by show m.toNat + 1 < 2 ^ 64; omega)

theorem next?_eq_none_iff {c : Valuations} : c.next? = none ↔ c.remaining = 0 := by
  unfold next? remaining
  split
  · next hlt =>
    have := UInt64.lt_iff_toNat_lt.1 hlt
    simp only [reduceCtorEq, false_iff]
    omega
  · next hge =>
    have := mt UInt64.lt_iff_toNat_lt.2 hge
    simp only [true_iff]
    omega

theorem remaining_of_next? {c c' : Valuations} {v : Valuation} (h : c.next? = some (v, c')) :
    c.remaining = c'.remaining + 1 := by
  unfold next? at h
  split at h
  · next hlt =>
    cases h
    have hnat := UInt64.lt_iff_toNat_lt.1 hlt
    show _ = (c.rowCount.toNat - (c.nextRow + 1).toNat) + 1
    rw [toNat_succ_of_lt hlt, remaining]
    omega
  · cases h

theorem toList_of_next?_eq_none {c : Valuations} (h : c.next? = none) : c.toList = [] := by
  rw [toList, next?_eq_none_iff.1 h]
  rfl

theorem toList_of_next?_eq_some {c c' : Valuations} {v : Valuation}
    (h : c.next? = some (v, c')) : c.toList = v :: c'.toList := by
  rw [toList, remaining_of_next? h, List.range_succ_eq_map, List.map_cons, List.map_map]
  unfold next? at h
  split at h
  · cases h
    rw [List.cons.injEq]
    refine ⟨by simp, List.map_congr_left fun k _ => ?_⟩
    show row _ (c.nextRow + UInt64.ofNat (k + 1)) = row _ (c.nextRow + 1 + UInt64.ofNat k)
    rw [UInt64.ofNat_add, UInt64.add_assoc, UInt64.add_comm (UInt64.ofNat k)]
    rfl
  · cases h

/-! ## Going through the rest -/

/-- Goes through all valuations that are left. -/
def foldl {β : Type} (f : β → Valuation → β) (init : β) (c : Valuations) : β :=
  match h : c.next? with
  | none => init
  | some (v, c') =>
    have : c'.remaining < c.remaining := by rw [remaining_of_next? h]; exact Nat.lt_succ_self _
    foldl f (f init v) c'
termination_by c.remaining

theorem foldl_eq_foldl_toList {β : Type} (f : β → Valuation → β) (init : β)
    (c : Valuations) :
    c.foldl f init = c.toList.foldl f init := by
  fun_induction foldl f init c with
  | case1 init c h => rw [toList_of_next?_eq_none h]; rfl
  | case2 init c v c' h _ ih => rw [toList_of_next?_eq_some h, ih]; rfl

/-- The cursor after the last valuation. -/
def exhausted (c : Valuations) : Valuations := { c with nextRow := c.rowCount }

/-- Counts the valuations that are left by passing over them. -/
def count (c : Valuations) : Nat × Valuations := (c.foldl (fun n _ => n + 1) 0, c.exhausted)

/-- Passes over all valuations to the last one. -/
def last? (c : Valuations) : Option Valuation × Valuations :=
  (c.foldl (fun _ v => some v) none, c.exhausted)

/-- The next valuation after passing over `k` others; the cursor ends behind it, or behind
the last valuation if there are not enough. -/
def nth? (c : Valuations) (k : Nat) : Option Valuation × Valuations :=
  match c.next? with
  | none => (none, c)
  | some (v, c') =>
    match k with
    | 0 => (some v, c')
    | k + 1 => c'.nth? k

end Valuations

/-- All valuations of a number of variables, unless there are too many variables to enumerate
them. Room is made for all of them first. -/
def allValuations? (variableCount : Nat) : Call (Option (List Valuation)) :=
  match Valuations.start? variableCount with
  | some first => (reserveRows first.remaining).map fun _ => some first.toList
  | none => .returns none

end TruthTable
