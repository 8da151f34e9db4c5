import TruthTable.Proofs.RowOrder

/-!
# Cursors in use

A cursor can be asked for the next valuation, for one further on, for the number of those that
are left, and so on, and it can be copied, to go on from the copy later. Where it stands then is
told by the uses on its path alone, that is those which have led from the first row to it: what
has been done with the cursor between the making of a copy and the return to it does not count
(`Copied.run_map`).

Each use passes some rows, as many as it says or as many as there are, so the cursor stands before
the row whose number is the sum of what the uses on its path have passed (`foldl_after`). All that
it answers follows from that place.

Main statement: `Valuations.run_answers`.
-/

namespace TruthTable

namespace Valuations

/-! ## Uses -/

/-- What can be done with a cursor. -/
inductive Use where
  | next
  | nth (k : Nat)
  | count
  | last
  | len
  | sizeHint
  | variableCount
deriving DecidableEq

/-- The least and the greatest number of valuations that can be left, by the words of the cursor. -/
def sizeHint (c : Valuations) : Nat × Option Nat :=
  let left := (c.rowCount - c.nextRow).toNat
  (left, some left)

/-- How many valuations are left, if the bounds agree on it. -/
def len? (c : Valuations) : Option Nat :=
  let (low, high?) := c.sizeHint
  if high? = some low then some low else none

/-- The cursor after a use. -/
def after (c : Valuations) : Use → Valuations
  | .next =>
    match c.next? with
    | some (_, c') => c'
    | none => c
  | .nth k => (c.nth? k).2
  | .count => c.count.2
  | .last => c.last?.2
  | .len | .sizeHint | .variableCount => c

/-- How many of `total` rows have been passed after a use, if it was `passed` before. -/
def Use.passing (total passed : Nat) : Use → Nat
  | .next => min (passed + 1) total
  | .nth k => min (passed + (k + 1)) total
  | .count | .last => total
  | .len | .sizeHint | .variableCount => passed

/-- How many of `total` rows the uses on a path have passed. -/
def passed (total : Nat) (path : List Use) : Nat := path.foldl (Use.passing total) 0

section

variable {n k : Nat}

theorem after_atRow (hn : n ≤ variableLimit) (hk : k ≤ 2 ^ n) (u : Use) :
    (atRow n k).after u = atRow n (u.passing (2 ^ n) k) ∧ u.passing (2 ^ n) k ≤ 2 ^ n := by
  cases u with
  | next =>
    refine ⟨?_, Nat.min_le_right _ _⟩
    rcases Nat.lt_or_eq_of_le hk with hlt | rfl
    · rw [after, next?_atRow hn hlt, Use.passing, Nat.min_eq_left hlt]
    · rw [after, next?_atRow_end hn, Use.passing, Nat.min_eq_right (Nat.le_succ _)]
  | nth j => exact ⟨congrArg Prod.snd (nth?_atRow hn hk j), Nat.min_le_right _ _⟩
  | count => exact ⟨congrArg Prod.snd (count_atRow hn hk), Nat.le_refl _⟩
  | last => exact ⟨congrArg Prod.snd (last?_atRow hn hk), Nat.le_refl _⟩
  | len => exact ⟨rfl, hk⟩
  | sizeHint => exact ⟨rfl, hk⟩
  | variableCount => exact ⟨rfl, hk⟩

/-- A path leads to the row whose number is what its uses have passed. -/
theorem foldl_after (hn : n ≤ variableLimit) (hk : k ≤ 2 ^ n) (path : List Use) :
    path.foldl after (atRow n k) = atRow n (path.foldl (Use.passing (2 ^ n)) k) ∧
      path.foldl (Use.passing (2 ^ n)) k ≤ 2 ^ n := by
  induction path generalizing k with
  | nil => exact ⟨rfl, hk⟩
  | cons u path ih =>
    obtain ⟨hafter, hle⟩ := after_atRow hn hk u
    rw [List.foldl_cons, List.foldl_cons, hafter]
    exact ih hle

/-- There is no way on from the end. -/
theorem foldl_after_end (hn : n ≤ variableLimit) (path : List Use) :
    path.foldl after (atRow n (2 ^ n)) = atRow n (2 ^ n) := by
  have hpassing (u : Use) : u.passing (2 ^ n) (2 ^ n) = 2 ^ n := by
    cases u <;> simp [Use.passing]
  rw [(foldl_after hn (Nat.le_refl _) path).1]
  congr 1
  induction path with
  | nil => rfl
  | cons u path ih => rw [List.foldl_cons, hpassing, ih]

theorem sizeHint_atRow (hn : n ≤ variableLimit) (hk : k ≤ 2 ^ n) :
    (atRow n k).sizeHint = (2 ^ n - k, some (2 ^ n - k)) := by
  have hle : (atRow n k).nextRow ≤ (atRow n k).rowCount := by
    rw [UInt64.le_iff_toNat_le, toNat_nextRow_atRow hn hk, toNat_rowCount_atRow hn]
    exact hk
  rw [sizeHint, UInt64.toNat_sub_of_le _ _ hle, toNat_nextRow_atRow hn hk, toNat_rowCount_atRow hn]

theorem len?_atRow (hn : n ≤ variableLimit) (hk : k ≤ 2 ^ n) :
    (atRow n k).len? = some (2 ^ n - k) := by
  rw [len?, sizeHint_atRow hn hk]
  exact if_pos rfl

end

/-! ## Copies -/

/-- Something in use, and the copies that have been made of it, the newest first. -/
structure Copied (α : Type) where
  current : α
  copies : List α

/-- What can be done with something that can be copied. -/
inductive Move where
  | use (u : Use)
  | copy
  /-- What is in use becomes the copy after which `k` others have been made. -/
  | back (k : Nat)
deriving DecidableEq

namespace Copied

variable {α β : Type}

/-- Something without copies. -/
def start (x : α) : Copied α := ⟨x, []⟩

/-- The state after a move, where `f` says what a use leads to. There is no way back to a copy
that has not been made. -/
def step (f : α → Use → α) (s : Copied α) : Move → Copied α
  | .use u => { s with current := f s.current u }
  | .copy => { s with copies := s.current :: s.copies }
  | .back k =>
    match s.copies[k]? with
    | some x => { s with current := x }
    | none => s

/-- The state after some moves. -/
def run (f : α → Use → α) (s : Copied α) (moves : List Move) : Copied α := moves.foldl (step f) s

/-- What `φ` makes of all that is there. -/
def map (φ : α → β) (s : Copied α) : Copied β := ⟨φ s.current, s.copies.map φ⟩

section

variable {f : α → Use → α} {g : β → Use → β} (φ : α → β)

theorem step_map (h : ∀ x u, g (φ x) u = φ (f x u)) (s : Copied α) (move : Move) :
    (s.map φ).step g move = (s.step f move).map φ := by
  cases move with
  | use u =>
    show Copied.mk (g (φ s.current) u) (s.copies.map φ) = _
    rw [h]
    rfl
  | copy => rfl
  | back k =>
    have hcopy : (s.map φ).copies[k]? = s.copies[k]?.map φ := List.getElem?_map
    rw [step, step, hcopy]
    cases s.copies[k]? <;> rfl

/-- What the uses come to can be said of what is in use as well as of what `φ` makes of it. -/
theorem run_map (h : ∀ x u, g (φ x) u = φ (f x u)) (s : Copied α) (moves : List Move) :
    (s.map φ).run g moves = (s.run f moves).map φ := by
  induction moves generalizing s with
  | nil => rfl
  | cons move moves ih =>
    show ((s.map φ).step g move).run g moves = _
    rw [step_map φ h, ih]
    rfl

end

end Copied

/-- The uses that have led to where a cursor stands after some moves. -/
def pathOf (moves : List Move) : List Use :=
  ((Copied.start []).run (fun path u => path ++ [u]) moves).current

/-- A cursor stands where the uses on its path lead. -/
theorem current_run (first : Valuations) (moves : List Move) :
    ((Copied.start first).run after moves).current = (pathOf moves).foldl after first := by
  have hstep (path : List Use) (u : Use) :
      (path.foldl after first).after u = (path ++ [u]).foldl after first := by
    rw [List.foldl_append]
    rfl
  exact congrArg Copied.current
    (Copied.run_map (fun path => path.foldl after first) hstep (Copied.start []) moves)

/-- What a cursor answers at any time, for up to 63 variables. If the uses on its path have passed
`k` of the `2 ^ n` rows in the order of a truth table, it stands before row `k`, and the rows that
follow can be taken one by one; their number, which is no difference below zero, is what `len?`,
both bounds and `count` come to. The next valuation is that of row `k`, and after passing over `j` others it is that of row
`k + j`; if there is no such row, there is no answer, and the cursor is at the end. The last
valuation makes all variables false. At the end the cursor stays, whatever is done with it. -/
theorem run_answers {n : Nat} (hn : n ≤ 63) :
    ∃ first rows, start? n = some first ∧ (∀ others, InTableOrder n others ↔ others = rows) ∧
      allValuations? n = (if n ≤ 58 then .returns (some rows) else .panics) ∧
      ∀ (moves : List Move) (c : Valuations) (k : Nat),
        ((Copied.start first).run after moves).current = c → passed (2 ^ n) (pathOf moves) = k →
        k ≤ 2 ^ n ∧ c = atRow n k ∧ c.Takes (rows.drop k) (atRow n (2 ^ n)) ∧
        c.checkedLeft = .ok (2 ^ n - k) ∧ c.checkedNext = .ok c.next? ∧
        c.len? = some (2 ^ n - k) ∧ c.sizeHint = (2 ^ n - k, some (2 ^ n - k)) ∧
        c.variableCount = n ∧
        (k < 2 ^ n → ∃ v, rows[k]? = some v ∧ c.next? = some (v, atRow n (k + 1))) ∧
        (∀ j, k + j < 2 ^ n →
          ∃ v, rows[k + j]? = some v ∧ c.nth? j = (some v, atRow n (k + j + 1))) ∧
        (∀ j, 2 ^ n ≤ k + j → c.nth? j = (none, atRow n (2 ^ n))) ∧
        c.count = (2 ^ n - k, atRow n (2 ^ n)) ∧
        (k < 2 ^ n → rows.getLast? = some (List.replicate n false) ∧
          c.last? = (some (List.replicate n false), atRow n (2 ^ n))) ∧
        (k = 2 ^ n → c.next? = none ∧ c.last? = (none, c) ∧
          ∀ later : List Use, later.foldl after c = c) := by
  refine ⟨_, _, start?_eq hn, fun others => inTableOrder_iff, allValuations?_eq hn, ?_⟩
  rintro moves c k rfl rfl
  obtain ⟨hplace, hle⟩ := foldl_after hn (Nat.zero_le _) (pathOf moves)
  rw [← passed] at hplace hle
  rw [current_run, hplace]
  generalize passed (2 ^ n) (pathOf moves) = k at hle
  refine ⟨hle, rfl, takes_atRow hn hle, checkedLeft_atRow hn hle, checkedNext_eq hn,
    len?_atRow hn hle, sizeHint_atRow hn hle, rfl, ?_, ?_, ?_, count_atRow hn hle, ?_, ?_⟩
  · intro hlt
    exact ⟨_, getElem?_valuationsOf hlt, next?_atRow hn hlt⟩
  · intro j hlt
    refine ⟨_, getElem?_valuationsOf hlt, ?_⟩
    rw [nth?_atRow hn hle, getElem?_valuationsOf hlt, ← Nat.add_assoc, Nat.min_eq_left hlt]
  · intro j hge
    have hnone : (valuationsOf n)[k + j]? = none := List.getElem?_eq_none (by simpa using hge)
    rw [nth?_atRow hn hle, hnone, Nat.min_eq_right (by omega)]
  · intro hlt
    refine ⟨getLast?_valuationsOf n, ?_⟩
    rw [last?_atRow hn hle, if_pos hlt]
  · rintro rfl
    refine ⟨next?_atRow_end hn, ?_, foldl_after_end hn⟩
    rw [last?_atRow hn hle, if_neg (Nat.lt_irrefl _)]

/-- Passing over more rows than there are does not count once the copy is gone back to. -/
theorem run_answers_after_return :
    ∃ first c, start? 2 = some first ∧
      ((Copied.start first).run after
        [.use .next, .copy, .use (.nth 18446744073709551615), .use .last, .back 0,
          .use (.nth 1)]).current = c ∧
      c.len? = some 1 ∧ ∃ c', c.next? = some ([false, false], c') := by
  obtain ⟨first, rows, hfirst, horder, -, hanswers⟩ := run_answers (show 2 ≤ 63 by decide)
  obtain ⟨-, -, -, -, -, hlen, -, -, hnext, -⟩ := hanswers
    [.use .next, .copy, .use (.nth 18446744073709551615), .use .last, .back 0, .use (.nth 1)]
    _ 3 rfl rfl
  obtain ⟨v, hv, hstep⟩ := hnext (by decide)
  have hrow : rows[3]? = some [false, false] := by
    rw [← (horder _).1 (inTableOrder_valuationsOf 2)]
    rfl
  obtain rfl := Option.some.inj (hv.symm.trans hrow)
  exact ⟨first, _, hfirst, rfl, hlen, _, hstep⟩

end Valuations

end TruthTable
