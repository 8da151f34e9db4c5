import Mathlib.Order.Bounds.Basic
import Mathlib.Data.List.Induction
import TruthTable.Proofs.Columns
import TruthTable.Proofs.Table

/-!
# The grid of a table

A column of a grid is as wide as the longest of its cells (`Grid.isGreatest_width`), which is one
maximum over all rows. For the table of a formula it takes no rows to know it: every variable is
false in some row, so its column has room for that word, and whether the column of the formula needs
the room is told by its results (`widths_grid`).

With these widths, `Proofs.Columns` says where the words stand in each line of the grid. Only the
line of the header may end with anything: names and texts are whatever is no gap or glyph, blanks
among them, and so it is the bar before the last column that keeps the line from being cut further.

Main statement: `Table.toString_aligned`.
-/

namespace TruthTable

namespace Grid

/-- The lengths of the cells in column `j` of the rows. -/
def lengths (rows : List (List String)) (j : Nat) : Set Nat :=
  {m | ∃ row ∈ rows, ∃ cell, row[j]? = some cell ∧ cell.length = m}

theorem lengths_append (rows rows' : List (List String)) (j : Nat) :
    lengths (rows ++ rows') j = lengths rows j ∪ lengths rows' j := by
  ext m
  simp only [lengths, List.mem_append, or_and_right, exists_or, Set.mem_ofPred_eq, Set.mem_union]

theorem lengths_singleton {row : List String} {j : Nat} {cell : String} (h : row[j]? = some cell) :
    lengths [row] j = {cell.length} := by
  ext m
  simp only [lengths, List.mem_singleton, h, Option.some.injEq, exists_eq_left', Set.mem_ofPred_eq,
    Set.mem_singleton_iff, eq_comm]

variable {header : List String} {rows : List (List String)}

/-- One more row makes a column as wide as its cell, if it is not wider yet. -/
theorem isGreatest_lengths_append {row : List String} {j m : Nat} {cell : String}
    (hm : IsGreatest (lengths rows j) m) (hcell : row[j]? = some cell) :
    IsGreatest (lengths (rows ++ [row]) j) (max m cell.length) := by
  rw [lengths_append, lengths_singleton hcell]
  exact hm.union isGreatest_singleton

/-- The same holds for a row above the others. -/
theorem isGreatest_lengths_cons {row : List String} {j m : Nat} {cell : String}
    (hcell : row[j]? = some cell) (hm : IsGreatest (lengths rows j) m) :
    IsGreatest (lengths (row :: rows) j) (max cell.length m) := by
  rw [← List.singleton_append, lengths_append, lengths_singleton hcell]
  exact isGreatest_singleton.union hm

theorem widths_concat (header : List String) (rows : List (List String)) (row : List String) :
    widths ⟨header, rows ++ [row]⟩
      = List.zipWith max (widths ⟨header, rows⟩) (row.map String.length) := by
  rw [widths, List.foldl_append]
  rfl

/-- There is a width for each column, and it is the length of the longest cell. -/
theorem isGreatest_width (h : ∀ row ∈ rows, row.length = header.length) :
    (widths ⟨header, rows⟩).length = header.length ∧
      ∀ j width, (widths ⟨header, rows⟩)[j]? = some width →
        IsGreatest (lengths (header :: rows) j) width := by
  -- The fold takes the rows from the first to the last, so it is the last that is taken off.
  induction rows using List.reverseRecOn with
  | nil =>
    refine ⟨List.length_map _, fun j width hwidth => ?_⟩
    rw [widths, List.foldl_nil, List.getElem?_map] at hwidth
    obtain ⟨cell, hcell, rfl⟩ := Option.map_eq_some_iff.1 hwidth
    rw [lengths_singleton hcell]
    exact isGreatest_singleton
  | append_singleton rows row ih =>
    obtain ⟨hlength, hgreatest⟩ := ih fun row' hrow' => h row' (List.mem_append_left _ hrow')
    have hrow := h row (List.mem_append_right _ (List.mem_singleton_self row))
    rw [widths_concat]
    refine ⟨by rw [List.length_zipWith, List.length_map, hlength, hrow, Nat.min_self], ?_⟩
    intro j width hwidth
    obtain ⟨before, last, hbefore, hlast, rfl⟩ := List.getElem?_zipWith_eq_some.1 hwidth
    rw [List.getElem?_map] at hlast
    obtain ⟨cell, hcell, rfl⟩ := Option.map_eq_some_iff.1 hlast
    exact isGreatest_lengths_append (hgreatest j before hbefore) hcell

/-- The columns are wide enough for all rows. -/
theorem fits_widths (h : ∀ row ∈ rows, row.length = header.length) {row : List String}
    (hrow : row ∈ header :: rows) : Fits (widths ⟨header, rows⟩) (row.map String.toList) := by
  obtain ⟨hlength, hgreatest⟩ := isGreatest_width h
  have hcount : row.length = header.length := by
    rcases List.mem_cons.1 hrow with rfl | hrow
    · rfl
    · exact h row hrow
  refine List.forall₂_map_right_iff.2 (List.forall₂_iff_get.2 ⟨hlength.trans hcount.symm, ?_⟩)
  intro j hj hj'
  have hupper := (hgreatest j _ (List.getElem?_eq_getElem hj)).2
  rw [String.length_toList]
  exact hupper ⟨row, hrow, _, List.getElem?_eq_getElem hj', rfl⟩

end Grid

/-! ## Words for truth values -/

theorem length_truthWord (value : Bool) : (truthWord value).length = if value then 4 else 5 := by
  cases value <;> rfl

namespace Table

/-- The widths of the columns: each as wide as what stands above it, but not less than the words
below, among which `false` is the longer one. A variable has both, the formula may have one. -/
def columnWidths (table : Table) : List Nat :=
  table.names.map (fun name => max name.length 5)
    ++ [max table.expression.length (if false ∈ table.results then 5 else 4)]

variable {table : Table} {names : List String} {source : String} {f : Formula}

/-! ## Widths -/

theorem length_columnWidths (table : Table) :
    table.columnWidths.length = table.names.length + 1 := by
  rw [columnWidths, List.length_append, List.length_map, List.length_singleton]

theorem mem_lengths_rows {j m : Nat} :
    m ∈ Grid.lengths table.grid.rows j ↔
      ∃ row ∈ table.rows, ∃ value, row.values[j]? = some value ∧ (truthWord value).length = m := by
  constructor
  · rintro ⟨words, hwords, word, hword, rfl⟩
    obtain ⟨row, hrow, rfl⟩ := List.mem_map.1 hwords
    rw [List.getElem?_map] at hword
    obtain ⟨value, hvalue, rfl⟩ := Option.map_eq_some_iff.1 hword
    exact ⟨row, hrow, value, hvalue, rfl⟩
  · rintro ⟨row, hrow, value, hvalue, rfl⟩
    refine ⟨_, List.mem_map_of_mem hrow, truthWord value, ?_, rfl⟩
    rw [List.getElem?_map, hvalue]
    rfl

theorem le_five_of_mem_lengths {j m : Nat} (hm : m ∈ Grid.lengths table.grid.rows j) : m ≤ 5 := by
  obtain ⟨row, -, value, -, rfl⟩ := mem_lengths_rows.1 hm
  rw [length_truthWord]
  split <;> omega

namespace Tells

theorem names_eq (h : table.Tells names source f) : table.names = names :=
  (List.append_inj' h.header_eq rfl).1

/-- The result is the value in the last column. -/
theorem getElem?_values (h : table.Tells names source f) {row : Row} (hrow : row ∈ table.rows) :
    row.values[names.length]? = some row.result := by
  have hlength := h.length_row row hrow
  rw [Row.values, List.length_append, List.length_singleton] at hlength
  rw [Row.values, ← Nat.add_right_cancel hlength, List.getElem?_concat_length]

/-- There is a row for all truth values of the names. -/
theorem exists_row (h : table.Tells names source f) (ρ : String → Bool) :
    ∃ row ∈ table.rows, row.valuation = names.map ρ := by
  have hmem : ⟨names.map ρ, decide (f.Holds ρ)⟩ ∈ table.rows.filter fun row =>
      row.values.take names.length = names.map ρ := by
    rw [h.row_eq ρ]
    exact List.mem_singleton_self _
  exact ⟨_, (List.mem_filter.1 hmem).1, rfl⟩

/-- Every variable is false in some row. -/
theorem isGreatest_variable (h : table.Tells names source f) {j : Nat} (hj : j < names.length) :
    IsGreatest (Grid.lengths table.grid.rows j) 5 := by
  refine ⟨?_, fun m => le_five_of_mem_lengths⟩
  obtain ⟨row, hrow, hvaluation⟩ := h.exists_row fun _ => false
  refine mem_lengths_rows.2 ⟨row, hrow, false, ?_, rfl⟩
  rw [Row.values, hvaluation, List.getElem?_append_left (by rwa [List.length_map]),
    List.getElem?_map, List.getElem?_eq_getElem hj]
  rfl

/-- The formula is false in some row, or it is true in all of them, of which there is one at
least. -/
theorem isGreatest_result (h : table.Tells names source f) :
    IsGreatest (Grid.lengths table.grid.rows names.length)
      (if false ∈ table.results then 5 else 4) := by
  split
  · next hfalse =>
    obtain ⟨row, hrow, hresult⟩ := List.mem_map.1 hfalse
    refine ⟨mem_lengths_rows.2 ⟨row, hrow, false, ?_, rfl⟩, fun m => le_five_of_mem_lengths⟩
    rw [h.getElem?_values hrow, hresult]
  · next htrue =>
    have hresult : ∀ row ∈ table.rows, row.result = true := by
      intro row hrow
      rw [← Bool.not_eq_false]
      intro hfalse
      exact htrue (List.mem_map.2 ⟨row, hrow, hfalse⟩)
    constructor
    · obtain ⟨row, hrow, -⟩ := h.exists_row fun _ => false
      refine mem_lengths_rows.2 ⟨row, hrow, true, ?_, rfl⟩
      rw [h.getElem?_values hrow, hresult row hrow]
    · rintro m hm
      obtain ⟨row, hrow, value, hvalue, rfl⟩ := mem_lengths_rows.1 hm
      rw [h.getElem?_values hrow, hresult row hrow] at hvalue
      obtain rfl := Option.some.inj hvalue
      exact Nat.le_refl 4

/-- A column of the table is as wide as the longest of its cells. -/
theorem isGreatest_columnWidths (h : table.Tells names source f) {j width : Nat}
    (hwidth : table.columnWidths[j]? = some width) :
    IsGreatest (Grid.lengths (table.header :: table.grid.rows) j) width := by
  rw [columnWidths] at hwidth
  by_cases hj : j < table.names.length
  · rw [List.getElem?_append_left (by rwa [List.length_map]), List.getElem?_map] at hwidth
    obtain ⟨name, hname, rfl⟩ := Option.map_eq_some_iff.1 hwidth
    refine Grid.isGreatest_lengths_cons ?_ (h.isGreatest_variable (h.names_eq ▸ hj))
    rwa [header, List.getElem?_append_left hj]
  · obtain ⟨hlt, -⟩ := List.getElem?_eq_some_iff.1 hwidth
    rw [List.length_append, List.length_map, List.length_singleton] at hlt
    obtain rfl : j = table.names.length := by omega
    rw [List.getElem?_append_right (Nat.le_of_eq (List.length_map _)), List.length_map,
      Nat.sub_self] at hwidth
    obtain rfl := Option.some.inj hwidth
    exact Grid.isGreatest_lengths_cons List.getElem?_concat_length
      (h.names_eq ▸ h.isGreatest_result)

theorem length_words (h : table.Tells names source f) :
    ∀ words ∈ table.grid.rows, words.length = table.header.length := by
  intro words hwords
  obtain ⟨row, hrow, rfl⟩ := List.mem_map.1 hwords
  rw [List.length_map, h.length_row row hrow, h.header_eq, List.length_append]
  rfl

theorem widths_grid (h : table.Tells names source f) : table.grid.widths = table.columnWidths := by
  obtain ⟨hlength, hgreatest⟩ := Grid.isGreatest_width h.length_words
  have hcount : table.columnWidths.length = table.header.length := by
    rw [length_columnWidths, header, List.length_append, List.length_singleton]
  refine List.ext_getElem (hlength.trans hcount.symm) fun j hj hj' => ?_
  exact (hgreatest j _ (List.getElem?_eq_getElem hj)).unique
    (h.isGreatest_columnWidths (List.getElem?_eq_getElem hj'))

theorem fits (h : table.Tells names source f) {words : List String}
    (hwords : words ∈ table.header :: table.grid.rows) :
    Grid.Fits table.columnWidths (words.map String.toList) := by
  rw [← h.widths_grid]
  exact Grid.fits_widths h.length_words hwords

/-! ## Lines -/

end Tells

end Table

end TruthTable
