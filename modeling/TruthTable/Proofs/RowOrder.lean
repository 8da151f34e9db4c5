import TruthTable.Proofs.Cursor

/-!
# The order of the rows

Of two rows of a truth table, the one comes first that makes the first variable true in which they
differ (`Earlier`). That leaves no choice: there is one list with all valuations of `n` variables,
each of them once, the earlier ones first (`inTableOrder_iff`), and it is the list by recursion,
`valuationsOf`. Down a column of it, truth values change in blocks of equal length, which is half
as long in each next column (`column_valuationsOf`).

The enumeration takes its rows off the bits of a counter. What it comes to, from the first cursor
to the last and for the most variables that a counter can serve, is that list, and no step of it
needs more than the words it has. Only the list itself cannot be kept for all of these numbers of
variables, since a block of memory for so many rows cannot be addressed.

Main statement: `Valuations.enumeration_in_order`.
-/

namespace TruthTable

/-- At the first variable in which the valuations differ, the one before is true. -/
def Earlier (v w : Valuation) : Prop := List.Lex (fun a b => a = true ∧ b = false) v w

/-- All valuations of `n` variables, each once, the earlier ones first. -/
structure InTableOrder (n : Nat) (rows : List Valuation) : Prop where
  length_eq : rows.length = 2 ^ n
  length_row : ∀ v ∈ rows, v.length = n
  once : ∀ v : Valuation, v.length = n → rows.count v = 1
  ordered : rows.Pairwise Earlier

theorem Earlier.asymm {v w : Valuation} (h : Earlier v w) : ¬Earlier w v := by
  refine List.lex_asymm ?_ h
  rintro a b ⟨rfl, rfl⟩ ⟨hfalse, -⟩
  cases hfalse

theorem pairwise_valuationsOf (n : Nat) : (valuationsOf n).Pairwise Earlier := by
  induction n with
  | zero => exact List.pairwise_singleton _ _
  | succ n ih =>
    have hcons (value : Bool) : ((valuationsOf n).map (value :: ·)).Pairwise Earlier := by
      rw [List.pairwise_map]
      exact ih.imp .cons
    rw [valuationsOf, List.pairwise_append]
    refine ⟨hcons true, hcons false, ?_⟩
    -- All that make the first variable true come before all that make it false.
    intro v hv w hw
    obtain ⟨v', -, rfl⟩ := List.mem_map.1 hv
    obtain ⟨w', -, rfl⟩ := List.mem_map.1 hw
    exact .rel ⟨rfl, rfl⟩

theorem inTableOrder_valuationsOf (n : Nat) : InTableOrder n (valuationsOf n) where
  length_eq := length_valuationsOf n
  length_row := fun _ hv => mem_valuationsOf.1 hv
  once := fun v hv => by
    rw [List.Nodup.count (nodup_valuationsOf n), if_pos (mem_valuationsOf.2 hv)]
  ordered := pairwise_valuationsOf n

/-- No other list is in that order. -/
theorem inTableOrder_iff {n : Nat} {rows : List Valuation} :
    InTableOrder n rows ↔ rows = valuationsOf n := by
  constructor
  · intro h
    have hperm : rows.Perm (valuationsOf n) := by
      rw [List.perm_iff_count]
      intro v
      by_cases hlength : v.length = n
      · rw [h.once v hlength, (inTableOrder_valuationsOf n).once v hlength]
      · have hrows : v ∉ rows := fun hv => hlength (h.length_row v hv)
        have hall : v ∉ valuationsOf n := fun hv => hlength (mem_valuationsOf.1 hv)
        rw [List.count_eq_zero_of_not_mem hrows, List.count_eq_zero_of_not_mem hall]
    exact hperm.eq_of_pairwise (fun v w _ _ hvw hwv => absurd hwv hvw.asymm) h.ordered
      (pairwise_valuationsOf n)
  · rintro rfl
    exact inTableOrder_valuationsOf n

/-- Column `i` is made of blocks of `2 ^ (n - 1 - i)` equal truth values, true and false by
turns. -/
theorem column_valuationsOf {n i : Nat} (hi : i < n) :
    (valuationsOf n).map (·[i]?) =
      (List.replicate (2 ^ i) (List.replicate (2 ^ (n - 1 - i)) (some true)
        ++ List.replicate (2 ^ (n - 1 - i)) (some false))).flatten := by
  induction n generalizing i with
  | zero => cases hi
  | succ n ih =>
    rw [valuationsOf, List.map_append, List.map_map, List.map_map]
    cases i with
    | zero =>
      have hblock (value : Bool) : (valuationsOf n).map ((·[0]?) ∘ (value :: ·))
          = List.replicate (2 ^ n) (some value) := by
        rw [← length_valuationsOf n]
        exact List.map_const'
      rw [hblock, hblock]
      simp
    | succ i =>
      -- The first variable is passed over, and both halves go on alike.
      have hhalf (value : Bool) : (valuationsOf n).map ((·[i + 1]?) ∘ (value :: ·))
          = (valuationsOf n).map (·[i]?) := rfl
      have hplace : n + 1 - 1 - (i + 1) = n - 1 - i := by omega
      rw [hhalf, hhalf, ih (Nat.lt_of_succ_lt_succ hi), hplace, ← List.flatten_append,
        List.replicate_append_replicate, ← Nat.two_mul, Nat.pow_succ, Nat.mul_comm]

example : (valuationsOf 3).map (·[1]?)
    = [true, true, false, false, true, true, false, false].map some := rfl

/-! ## The enumeration -/

namespace Valuations

theorem allValuations?_of_lt {n : Nat} (hn : variableLimit < n) :
    allValuations? n = .returns none := by
  rw [allValuations?, start?_eq_none hn]

/-- From the first cursor for `n` variables to the last one, these valuations are taken. -/
def Enumerates (n : Nat) (rows : List Valuation) : Prop :=
  ∃ first last, start? n = some first ∧ first.Takes rows last ∧ last.next? = none

theorem enumerates_valuationsOf {n : Nat} (hn : n ≤ variableLimit) :
    Enumerates n (valuationsOf n) := by
  have htakes := takes_atRow hn (Nat.zero_le (2 ^ n))
  rw [List.drop_zero] at htakes
  exact ⟨_, _, start?_eq hn, htakes, next?_atRow_end hn⟩

/-- No step on the way of a cursor needs more than its words have, and each valuation that is taken
leaves one less. -/
theorem Takes.checked {n : Nat} (hn : n ≤ variableLimit) {vs : List Valuation} {c : Valuations}
    (h : (atRow n 0).Takes vs c) :
    c.checkedNext = .ok c.next? ∧ c.checkedLeft = .ok (2 ^ n - vs.length) := by
  obtain ⟨hc, hle⟩ := h.eq_atRow hn (Nat.zero_le _)
  rw [Nat.zero_add] at hc hle
  have hcount : c.variableCount ≤ variableLimit := by rw [hc]; exact hn
  exact ⟨checkedNext_eq hcount, by rw [hc]; exact checkedLeft_atRow hn hle⟩

/-- For up to 63 variables the enumeration begins, and what is taken from the first cursor to the
last one is the one list of all valuations in the order of a truth table. The list for one more
variable makes it true in the list so far, and then false; down each column there are blocks of
equal length. For more variables there is no cursor to begin with, and no list. Nothing on the way
needs more than the words there are. But to keep the list takes room, and from 59 variables on the
demand for it panics. -/
theorem enumeration_in_order (n : Nat) :
    checkedStart n = .ok (start? n) ∧
    (n ≤ 63 → ∃ rows, Enumerates n rows ∧
      (∀ others, InTableOrder n others ↔ others = rows) ∧
      (∀ i < n, rows.map (·[i]?) =
        (List.replicate (2 ^ i) (List.replicate (2 ^ (n - 1 - i)) (some true)
          ++ List.replicate (2 ^ (n - 1 - i)) (some false))).flatten) ∧
      (∀ first vs c, start? n = some first → first.Takes vs c →
        c.checkedNext = .ok c.next? ∧ c.checkedLeft = .ok (2 ^ n - vs.length)) ∧
      allValuations? n = if n ≤ 58 then .returns (some rows) else .panics) ∧
    Enumerates 0 [[]] ∧ allValuations? 0 = .returns (some [[]]) ∧
    (n + 1 ≤ 63 → ∃ rows, Enumerates n rows ∧
      Enumerates (n + 1) (rows.map (true :: ·) ++ rows.map (false :: ·)) ∧
      (n + 1 ≤ 58 → allValuations? n = .returns (some rows) ∧
        allValuations? (n + 1) = .returns (some (rows.map (true :: ·) ++ rows.map (false :: ·))))) ∧
    (64 ≤ n → start? n = none ∧ allValuations? n = .returns none) := by
  refine ⟨checkedStart_eq n, fun hn => ?_, enumerates_valuationsOf (Nat.zero_le _), rfl,
    fun hn => ?_, fun hn => ?_⟩
  · refine ⟨_, enumerates_valuationsOf hn, fun others => inTableOrder_iff,
      fun i hi => column_valuationsOf hi, fun first vs c hfirst htakes => ?_, allValuations?_eq hn⟩
    rw [start?_eq hn] at hfirst
    obtain rfl := Option.some.inj hfirst
    exact htakes.checked hn
  · have hless : n ≤ variableLimit := Nat.le_of_succ_le hn
    refine ⟨_, enumerates_valuationsOf hless, enumerates_valuationsOf hn, fun hroom => ⟨?_, ?_⟩⟩
    · rw [allValuations?_eq hless, if_pos (Nat.le_of_succ_le hroom)]
    · rw [allValuations?_eq hn, if_pos hroom]
      rfl
  · exact ⟨start?_eq_none hn, allValuations?_of_lt hn⟩

/-- With 63 variables the rows can still be counted, with one more they cannot. -/
theorem enumeration_of_widest :
    (∃ rows, Enumerates 63 rows ∧ rows.length = 2 ^ 63 ∧ allValuations? 63 = .panics) ∧
    start? 64 = none := by
  obtain ⟨-, hwithin, -⟩ := enumeration_in_order 63
  obtain ⟨rows, hrows, horder, -, -, hall⟩ := hwithin (Nat.le_refl 63)
  rw [if_neg (by decide)] at hall
  obtain ⟨-, -, -, -, -, hbeyond⟩ := enumeration_in_order 64
  exact ⟨⟨rows, hrows, ((horder rows).2 rfl).length_eq, hall⟩, (hbeyond (Nat.le_refl 64)).1⟩

/-- With 59 variables all rows can be enumerated, but there is no list of them. -/
theorem enumeration_without_list :
    (∃ rows, Enumerates 59 rows) ∧ allValuations? 59 = .panics ∧
      ¬∃ rows, allValuations? 59 = .returns (some rows) := by
  have hpanics : allValuations? 59 = .panics := by
    rw [allValuations?_eq (by decide), if_neg (by decide)]
  refine ⟨⟨_, enumerates_valuationsOf (by decide)⟩, hpanics, fun hlist => ?_⟩
  obtain ⟨rows, hreturns⟩ := hlist
  rw [hpanics] at hreturns
  cases hreturns

end Valuations

end TruthTable
