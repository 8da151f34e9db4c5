import Mathlib.Algebra.Ring.Nat
import TruthTable.Valuations

/-!
# All valuations, by recursion

The valuations of one more variable are those that make it true, and after them those that
make it false, each list in the order of the other variables. `valuationsOf` is that
recursion. The enumeration reads its rows off the bits of their numbers instead: the
numbers below `2 ^ n` have their bit `n` clear and are the rows of `true`, and as many again
have it set.

Main statements: `map_bitRow_range`, the rows by bits are the list by recursion;
`mem_valuationsOf` and `nodup_valuationsOf`, every valuation of the right length is in it,
and once.
-/

namespace TruthTable

/-- Going through a list without a failure is going through the results. -/
theorem mapM_eq_ok {α β ε : Type} {f : α → Except ε β} {g : α → β} {xs : List α}
    (h : ∀ x ∈ xs, f x = .ok (g x)) : xs.mapM f = .ok (xs.map g) := by
  induction xs with
  | nil => rfl
  | cons x xs ih =>
    rw [List.mapM_cons, h x List.mem_cons_self, ih fun y hy => h y (List.mem_cons_of_mem x hy)]
    rfl

/-- The valuations of `n` variables: those that make the first one true, and then those that
make it false. -/
def valuationsOf : Nat → List Valuation
  | 0 => [[]]
  | n + 1 => (valuationsOf n).map (true :: ·) ++ (valuationsOf n).map (false :: ·)

/-! ## What is in the list -/

@[simp] theorem length_valuationsOf (n : Nat) : (valuationsOf n).length = 2 ^ n := by
  induction n with
  | zero => rfl
  | succ n ih =>
    rw [valuationsOf, List.length_append, List.length_map, List.length_map, ih, Nat.pow_succ]
    omega

theorem mem_valuationsOf {n : Nat} {v : Valuation} : v ∈ valuationsOf n ↔ v.length = n := by
  induction n generalizing v with
  | zero => rw [valuationsOf, List.mem_singleton, List.length_eq_zero_iff]
  | succ n ih =>
    rw [valuationsOf, List.mem_append, List.mem_map, List.mem_map]
    constructor
    · intro h
      obtain ⟨w, hw, rfl⟩ | ⟨w, hw, rfl⟩ := h
      · rw [List.length_cons, ih.1 hw]
      · rw [List.length_cons, ih.1 hw]
    · intro h
      cases v with
      | nil => cases h
      | cons value w =>
        have hw : w ∈ valuationsOf n := ih.2 (Nat.succ.inj h)
        cases value with
        | true => exact Or.inl ⟨w, hw, rfl⟩
        | false => exact Or.inr ⟨w, hw, rfl⟩

theorem nodup_valuationsOf (n : Nat) : (valuationsOf n).Nodup := by
  induction n with
  | zero => exact List.pairwise_singleton _ _
  | succ n ih =>
    have hcons (value : Bool) : ((valuationsOf n).map (value :: ·)).Nodup := by
      rw [List.nodup_iff_pairwise_ne, List.pairwise_map]
      exact ih.imp fun hne heq => hne (List.cons.inj heq).2
    rw [valuationsOf, List.nodup_append]
    refine ⟨hcons true, hcons false, ?_⟩
    -- The two halves differ in the first variable.
    intro v hv w hw heq
    obtain ⟨v', -, rfl⟩ := List.mem_map.1 hv
    obtain ⟨w', -, rfl⟩ := List.mem_map.1 hw
    cases (List.cons.inj heq).1

/-- Each valuation of the right length stands in the list exactly once. -/
theorem filter_valuationsOf {n : Nat} {v : Valuation} (h : v.length = n) :
    (valuationsOf n).filter (· = v) = [v] := by
  have hmem : v ∈ valuationsOf n := mem_valuationsOf.2 h
  rw [List.filter_eq, List.Nodup.count (nodup_valuationsOf n), if_pos hmem]
  rfl

/-! ## Rows by the bits of their numbers -/

/-- The valuation of `n` variables in row `k`, by the bits of the number. -/
def bitRow (n k : Nat) : Valuation := (List.range n).map fun i => !k.testBit (n - 1 - i)

/-- The words that the enumeration computes with hold the numbers of the rows. -/
theorem Valuations.row_ofNat {n k : Nat} (hn : n ≤ variableLimit) (hk : k < 2 ^ 64) :
    row n (UInt64.ofNat k) = bitRow n k := by
  apply List.map_congr_left
  intro i hi
  have hshift : n - 1 - i < 64 := by
    unfold variableLimit at hn
    omega
  have hbit : ((UInt64.ofNat k >>> UInt64.ofNat (n - 1 - i)) &&& 1).toNat
      = k >>> (n - 1 - i) &&& 1 := by
    rw [UInt64.toNat_and, UInt64.toNat_shiftRight, UInt64.toNat_ofNat_of_lt' hk,
      UInt64.toNat_ofNat_of_lt' (Nat.lt_trans hshift (by decide)), Nat.mod_eq_of_lt hshift]
    rfl
  rw [Bool.eq_iff_iff, beq_iff_eq, ← UInt64.toNat_inj, hbit, Nat.testBit, Nat.and_comm,
    Bool.not_eq_true', bne_eq_false_iff_eq]
  rfl

/-- The cursor before the first valuation has `2 ^ n` rows to go. -/
theorem Valuations.toNat_rowCount {n : Nat} (hn : n ≤ variableLimit) :
    ((1 : UInt64) <<< UInt64.ofNat n).toNat = 2 ^ n := by
  have hlt : n < 64 := Nat.lt_of_le_of_lt hn (by decide)
  rw [UInt64.toNat_shiftLeft, UInt64.toNat_ofNat_of_lt' (Nat.lt_trans hlt (by decide)),
    Nat.mod_eq_of_lt hlt]
  show 1 <<< n % 2 ^ 64 = 2 ^ n
  rw [Nat.one_shiftLeft, Nat.mod_eq_of_lt (Nat.pow_lt_pow_right (by decide) hlt)]

theorem bitRow_succ (n k : Nat) : bitRow (n + 1) k = (!k.testBit n) :: bitRow n k := by
  rw [bitRow, List.range_succ_eq_map, List.map_cons, List.map_map, Nat.add_sub_cancel, Nat.sub_zero]
  congr 1
  apply List.map_congr_left
  intro i hi
  rw [Function.comp_apply, Nat.succ_eq_one_add, Nat.sub_add_eq]

/-- A row number's bits beyond the variables do not matter. -/
theorem bitRow_two_pow_add (n k : Nat) : bitRow n (2 ^ n + k) = bitRow n k := by
  apply List.map_congr_left
  intro i hi
  have hlt : n - 1 - i < n := by
    have := List.mem_range.1 hi
    omega
  rw [Nat.testBit_two_pow_add_gt hlt]

/-- The rows in the order of their numbers are the valuations in the order of the recursion. -/
theorem map_bitRow_range (n : Nat) : (List.range (2 ^ n)).map (bitRow n) = valuationsOf n := by
  induction n with
  | zero => rfl
  | succ n ih =>
    have hfirst : (List.range (2 ^ n)).map (bitRow (n + 1)) = (valuationsOf n).map (true :: ·) := by
      rw [← ih, List.map_map]
      apply List.map_congr_left
      intro k hk
      rw [bitRow_succ, Nat.testBit_lt_two_pow (List.mem_range.1 hk)]
      rfl
    have hsecond : (List.range (2 ^ n)).map (fun k => bitRow (n + 1) (2 ^ n + k))
        = (valuationsOf n).map (false :: ·) := by
      rw [← ih, List.map_map]
      apply List.map_congr_left
      intro k hk
      rw [bitRow_succ, bitRow_two_pow_add, Nat.testBit_two_pow_add_eq,
        Nat.testBit_lt_two_pow (List.mem_range.1 hk)]
      rfl
    rw [Nat.pow_succ, Nat.mul_two, List.range_add, List.map_append, List.map_map, hfirst,
      valuationsOf, ← hsecond]
    rfl

end TruthTable
