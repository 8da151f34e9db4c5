import TruthTable.Proofs.Valuations

/-!
# A cursor and its place

A cursor through the valuations of `n` variables stands before one of the `2 ^ n` rows or behind
the last one, and its place says all about it (`Valuations.atRow`). What the uses of a cursor come
to is here said by places: to take a valuation leads to the next place, to pass over some leads as
much further, and none leads beyond the end (`next?_atRow`, `nth?_atRow`, `takes_atRow`). From the
first place on the valuations taken are the whole list, but a block of memory with room for that
list can be had for up to 58 variables only (`allValuations?_eq`).

The places are kept in words of 64 bits, and up to 63 variables they fit: no sum is too large for
a word, no difference is below zero, and no word is shifted by all of its bits. To say so, the
steps are written once more with arithmetic that fails where a word would not do (`checkedStart`,
`checkedNext`, `checkedLeft`), and never is there such a failure.
-/

namespace TruthTable

section

variable {n k : Nat}

namespace Valuations

/-- The cursor before row `k` of the valuations of `n` variables. -/
def atRow (n k : Nat) : Valuations := ⟨n, UInt64.ofNat k, 1 <<< UInt64.ofNat n⟩

theorem start?_eq (hn : n ≤ variableLimit) : start? n = some (atRow n 0) := if_pos hn

theorem start?_eq_none (hn : variableLimit < n) : start? n = none := if_neg (Nat.not_le_of_lt hn)

theorem lt_size_of_le (hn : n ≤ variableLimit) (hk : k ≤ 2 ^ n) : k < UInt64.size :=
  calc k ≤ 2 ^ n := hk
    _ ≤ 2 ^ variableLimit := Nat.pow_le_pow_right (by decide) hn
    _ < UInt64.size := by decide

theorem toNat_nextRow_atRow (hn : n ≤ variableLimit) (hk : k ≤ 2 ^ n) :
    (atRow n k).nextRow.toNat = k := UInt64.toNat_ofNat_of_lt' (lt_size_of_le hn hk)

theorem toNat_rowCount_atRow (hn : n ≤ variableLimit) : (atRow n k).rowCount.toNat = 2 ^ n :=
  toNat_rowCount hn

theorem remaining_atRow (hn : n ≤ variableLimit) (hk : k ≤ 2 ^ n) :
    (atRow n k).remaining = 2 ^ n - k := by
  rw [remaining, toNat_rowCount_atRow hn, toNat_nextRow_atRow hn hk]

/-- The cursor behind the last row. -/
theorem exhausted_atRow (hn : n ≤ variableLimit) : (atRow n k).exhausted = atRow n (2 ^ n) := by
  have hcount : (1 : UInt64) <<< UInt64.ofNat n = UInt64.ofNat (2 ^ n) := by
    rw [← UInt64.toNat_inj, toNat_rowCount hn,
      UInt64.toNat_ofNat_of_lt' (lt_size_of_le hn (Nat.le_refl _))]
  rw [exhausted, atRow, atRow, hcount]

/-! ## One step -/

theorem getElem?_valuationsOf (hk : k < 2 ^ n) : (valuationsOf n)[k]? = some (bitRow n k) := by
  rw [← map_bitRow_range, List.getElem?_map, List.getElem?_range hk, Option.map_some]

theorem next?_atRow (hn : n ≤ variableLimit) (hk : k < 2 ^ n) :
    (atRow n k).next? = some (bitRow n k, atRow n (k + 1)) := by
  have hlt : (atRow n k).nextRow < (atRow n k).rowCount := by
    rw [UInt64.lt_iff_toNat_lt, toNat_nextRow_atRow hn (Nat.le_of_lt hk), toNat_rowCount_atRow hn]
    exact hk
  rw [next?, if_pos hlt, atRow, row_ofNat hn (lt_size_of_le hn (Nat.le_of_lt hk)), atRow,
    UInt64.ofNat_add]
  rfl

theorem next?_atRow_end (hn : n ≤ variableLimit) : (atRow n (2 ^ n)).next? = none := by
  rw [next?_eq_none_iff, remaining_atRow hn (Nat.le_refl _), Nat.sub_self]

/-- To pass over `j` valuations and take the next one leads `j + 1` rows further, or to the end. -/
theorem nth?_atRow (hn : n ≤ variableLimit) (hk : k ≤ 2 ^ n) (j : Nat) :
    (atRow n k).nth? j = ((valuationsOf n)[k + j]?, atRow n (min (k + (j + 1)) (2 ^ n))) := by
  induction j generalizing k with
  | zero =>
    rcases Nat.lt_or_eq_of_le hk with hlt | rfl
    · rw [nth?, next?_atRow hn hlt, getElem?_valuationsOf (k := k + 0) hlt, Nat.min_eq_left hlt]
      rfl
    · have hend : (valuationsOf n)[2 ^ n + 0]? = none := List.getElem?_eq_none (by simp)
      rw [nth?, next?_atRow_end hn, hend, Nat.min_eq_right (Nat.le_add_right _ _)]
  | succ j ih =>
    rcases Nat.lt_or_eq_of_le hk with hlt | rfl
    · rw [nth?, next?_atRow hn hlt]
      have hnext := ih (k := k + 1) hlt
      rwa [Nat.add_right_comm k 1 j, Nat.add_right_comm k 1 (j + 1)] at hnext
    · have hend : (valuationsOf n)[2 ^ n + (j + 1)]? = none := List.getElem?_eq_none (by simp)
      rw [nth?, next?_atRow_end hn, hend, Nat.min_eq_right (Nat.le_add_right _ _)]

/-! ## One after the other -/

/-- Taking valuations one by one leads from one cursor to another, past these valuations. -/
inductive Takes : Valuations → List Valuation → Valuations → Prop where
  | refl (c) : Takes c [] c
  | step {c c' last v vs} (hnext : c.next? = some (v, c')) (h : Takes c' vs last) :
      Takes c (v :: vs) last

namespace Takes

variable {c last : Valuations} {vs : List Valuation}

theorem toList_eq (h : c.Takes vs last) : c.toList = vs ++ last.toList := by
  induction h with
  | refl c => rfl
  | step hnext _ ih => rw [toList_of_next?_eq_some hnext, ih, List.cons_append]

/-- Each valuation that is taken leads one row further, and not beyond the last one. -/
theorem eq_atRow (hn : n ≤ variableLimit) (h : (atRow n k).Takes vs last) (hk : k ≤ 2 ^ n) :
    last = atRow n (k + vs.length) ∧ k + vs.length ≤ 2 ^ n := by
  generalize hc : atRow n k = c at h
  induction h generalizing k with
  | refl c => exact ⟨hc.symm, hk⟩
  | @step c c' last v vs hnext _ ih =>
    subst hc
    rcases Nat.lt_or_eq_of_le hk with hlt | rfl
    · rw [next?_atRow hn hlt] at hnext
      cases hnext
      obtain ⟨hlast, hle⟩ := ih hlt rfl
      rw [List.length_cons, Nat.add_comm vs.length, ← Nat.add_assoc]
      exact ⟨hlast, hle⟩
    · rw [next?_atRow_end hn] at hnext
      cases hnext

end Takes

/-- From any row on, what can be taken are the rows that follow, up to the end. -/
theorem takes_atRow (hn : n ≤ variableLimit) (hk : k ≤ 2 ^ n) :
    (atRow n k).Takes ((valuationsOf n).drop k) (atRow n (2 ^ n)) := by
  induction hk using Nat.decreasingInduction with
  | self =>
    rw [List.drop_eq_nil_of_le (Nat.le_of_eq (length_valuationsOf n))]
    exact .refl _
  | of_succ k hlt ih =>
    have hdrop : (valuationsOf n).drop k = bitRow n k :: (valuationsOf n).drop (k + 1) := by
      obtain ⟨hk, hrow⟩ := List.getElem?_eq_some_iff.1 (getElem?_valuationsOf hlt)
      rw [List.drop_eq_getElem_cons hk, hrow]
    rw [hdrop]
    exact .step (next?_atRow hn hlt) ih

theorem toList_atRow (hn : n ≤ variableLimit) (hk : k ≤ 2 ^ n) :
    (atRow n k).toList = (valuationsOf n).drop k := by
  rw [(takes_atRow hn hk).toList_eq, toList_of_next?_eq_none (next?_atRow_end hn), List.append_nil]

theorem foldl_count (vs : List Valuation) (m : Nat) :
    vs.foldl (fun m _ => m + 1) m = m + vs.length := by
  induction vs generalizing m with
  | nil => rfl
  | cons v vs ih =>
    rw [List.foldl_cons, ih, List.length_cons]
    omega

theorem count_atRow (hn : n ≤ variableLimit) (hk : k ≤ 2 ^ n) :
    (atRow n k).count = (2 ^ n - k, atRow n (2 ^ n)) := by
  rw [count, foldl_eq_foldl_toList, foldl_count, toList_atRow hn hk, List.length_drop,
    length_valuationsOf, Nat.zero_add, exhausted_atRow hn]

/-- The last row makes all variables false. -/
theorem getLast?_valuationsOf (n : Nat) :
    (valuationsOf n).getLast? = some (List.replicate n false) := by
  induction n with
  | zero => rfl
  | succ n ih =>
    rw [valuationsOf, List.getLast?_append, List.getLast?_map, ih]
    rfl

theorem foldl_some (vs : List Valuation) : vs.foldl (fun _ v => some v) none = vs.getLast? := by
  rcases List.eq_nil_or_concat vs with rfl | ⟨front, v, rfl⟩
  · rfl
  · rw [List.concat_eq_append, List.foldl_append, List.getLast?_concat]
    rfl

theorem last?_atRow (hn : n ≤ variableLimit) (hk : k ≤ 2 ^ n) :
    (atRow n k).last?
      = (if k < 2 ^ n then some (List.replicate n false) else none, atRow n (2 ^ n)) := by
  rw [last?, foldl_eq_foldl_toList, foldl_some, toList_atRow hn hk, exhausted_atRow hn,
    List.getLast?_drop, length_valuationsOf, getLast?_valuationsOf]
  by_cases hlt : k < 2 ^ n
  · rw [if_pos hlt, if_neg (Nat.not_le_of_lt hlt)]
  · rw [if_neg hlt, if_pos (Nat.le_of_not_lt hlt)]

end Valuations

/-! ## Room for all rows -/

theorem reserveRows_two_pow (n : Nat) :
    reserveRows (2 ^ n) = if n ≤ 58 then .returns () else .panics := by
  unfold reserveRows listBytes largestBlock
  by_cases hn : n ≤ 58
  · have hle : 2 ^ n ≤ 2 ^ 58 := Nat.pow_le_pow_right (by decide) hn
    rw [if_pos hn, if_pos (by omega)]
  · have hle : 2 ^ 59 ≤ 2 ^ n := Nat.pow_le_pow_right (by decide) (by omega)
    rw [if_neg hn, if_neg (by omega)]

/-- Room for the rows of a first cursor. -/
theorem reserveRows_start (hn : n ≤ Valuations.variableLimit) :
    reserveRows (Valuations.atRow n 0).remaining = if n ≤ 58 then .returns () else .panics := by
  rw [Valuations.remaining_atRow hn (Nat.zero_le _), Nat.sub_zero, reserveRows_two_pow]

theorem toList_start (hn : n ≤ Valuations.variableLimit) :
    (Valuations.atRow n 0).toList = valuationsOf n := by
  rw [Valuations.toList_atRow hn (Nat.zero_le _), List.drop_zero]

/-- The enumeration of all rows is the list by recursion, where there is room for it. -/
theorem allValuations?_eq (hn : n ≤ Valuations.variableLimit) :
    allValuations? n = if n ≤ 58 then .returns (some (valuationsOf n)) else .panics := by
  rw [allValuations?, Valuations.start?_eq hn]
  show (reserveRows (Valuations.atRow n 0).remaining).map _ = _
  rw [reserveRows_start hn, toList_start hn]
  split <;> rfl

/-! ## Arithmetic that fails -/

/-- What words and counts cannot do. -/
inductive Overflow where
  /-- A sum that needs more bits than a word has. -/
  | beyondWord
  /-- A difference below zero. -/
  | belowZero
  /-- A shift by as many bits as a word has, or more. -/
  | shiftedOut
deriving DecidableEq

/-- The sum of two words. -/
def checkedAdd (a b : UInt64) : Except Overflow UInt64 :=
  if a.toNat + b.toNat < UInt64.size then .ok (a + b) else .error .beyondWord

/-- The difference of two counts. -/
def checkedSub (a b : Nat) : Except Overflow Nat :=
  if b ≤ a then .ok (a - b) else .error .belowZero

/-- A word shifted to the left. -/
def checkedShiftLeft (word : UInt64) (places : Nat) : Except Overflow UInt64 :=
  if places < 64 then .ok (word <<< UInt64.ofNat places) else .error .shiftedOut

/-- A word shifted to the right. -/
def checkedShiftRight (word : UInt64) (places : Nat) : Except Overflow UInt64 :=
  if places < 64 then .ok (word >>> UInt64.ofNat places) else .error .shiftedOut

namespace Valuations

/-- The cursor before the first valuation. The number of variables has to fit in a word of 32 bits
before it is compared. -/
def checkedStart (variableCount : Nat) : Except Overflow (Option Valuations) :=
  if variableCount < UInt32.size ∧ variableCount < 64 then do
    let rowCount ← checkedShiftLeft 1 variableCount
    return some ⟨variableCount, 0, rowCount⟩
  else
    return none

/-- The truth value of variable `i` in a row. -/
def checkedCell (variableCount : Nat) (number : UInt64) (i : Nat) : Except Overflow Bool := do
  let last ← checkedSub variableCount 1
  let place ← checkedSub last i
  let shifted ← checkedShiftRight number place
  return shifted &&& 1 == 0

/-- The next valuation and the cursor after it. -/
def checkedNext (c : Valuations) : Except Overflow (Option (Valuation × Valuations)) :=
  if c.nextRow < c.rowCount then do
    let v ← (List.range c.variableCount).mapM (checkedCell c.variableCount c.nextRow)
    let nextRow ← checkedAdd c.nextRow 1
    return some (v, { c with nextRow })
  else
    return none

/-- How many valuations are left. -/
def checkedLeft (c : Valuations) : Except Overflow Nat :=
  checkedSub c.rowCount.toNat c.nextRow.toNat

theorem checkedStart_eq (variableCount : Nat) :
    checkedStart variableCount = .ok (start? variableCount) := by
  unfold checkedStart start?
  by_cases hle : variableCount ≤ variableLimit
  · have hlt : variableCount < 64 := Nat.lt_succ_of_le hle
    have hsize : variableCount < UInt32.size := Nat.lt_trans hlt (by decide)
    rw [if_pos ⟨hsize, hlt⟩, if_pos hle, checkedShiftLeft, if_pos hlt]
    rfl
  · have hge : ¬(variableCount < UInt32.size ∧ variableCount < 64) := fun h =>
      hle (Nat.le_of_lt_succ h.2)
    rw [if_neg hge, if_neg hle]
    rfl

theorem checkedCell_eq (hn : n ≤ variableLimit) {i : Nat} (hi : i < n) (number : UInt64) :
    checkedCell n number i = .ok (number >>> UInt64.ofNat (n - 1 - i) &&& 1 == 0) := by
  have hplace : n - 1 - i < 64 := by
    unfold variableLimit at hn
    omega
  have hone : 1 ≤ n := Nat.one_le_of_lt hi
  have hlast : i ≤ n - 1 := Nat.le_sub_one_of_lt hi
  rw [checkedCell, checkedSub, if_pos hone]
  show (do let place ← checkedSub (n - 1) i; _) = _
  rw [checkedSub, if_pos hlast]
  show (do let shifted ← checkedShiftRight number (n - 1 - i); _) = _
  rw [checkedShiftRight, if_pos hplace]
  rfl

/-- The row after a row that there is has a number too. -/
theorem checkedAdd_one {a b : UInt64} (h : a < b) : checkedAdd a 1 = .ok (a + 1) := by
  have hlt := UInt64.lt_iff_toNat_lt.1 h
  have hbound := b.toNat_lt_size
  have hsum : a.toNat + (1 : UInt64).toNat < UInt64.size := by
    show a.toNat + 1 < UInt64.size
    omega
  rw [checkedAdd, if_pos hsum]

theorem checkedNext_eq {c : Valuations} (hc : c.variableCount ≤ variableLimit) :
    c.checkedNext = .ok c.next? := by
  unfold checkedNext next?
  by_cases hlt : c.nextRow < c.rowCount
  · have hrow : (List.range c.variableCount).mapM (checkedCell c.variableCount c.nextRow)
        = .ok (row c.variableCount c.nextRow) :=
      mapM_eq_ok fun i hi => checkedCell_eq hc (List.mem_range.1 hi) c.nextRow
    rw [if_pos hlt, if_pos hlt, hrow, checkedAdd_one hlt]
    rfl
  · rw [if_neg hlt, if_neg hlt]
    rfl

theorem checkedLeft_atRow (hn : n ≤ variableLimit) (hk : k ≤ 2 ^ n) :
    (atRow n k).checkedLeft = .ok (2 ^ n - k) := by
  rw [checkedLeft, toNat_rowCount_atRow hn, toNat_nextRow_atRow hn hk, checkedSub, if_pos hk]

end Valuations

end

end TruthTable
