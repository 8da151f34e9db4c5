import Mathlib.Order.Bounds.Defs
import TruthTable.Span
import TruthTable.Text.Column

/-!
# Bytes and columns

The characters of a text begin at the bytes `boundary text k`, and the text ends at the boundary of
its length. Every character has a byte, so the boundaries increase. `Text.column` leads back from
the bytes to the characters, and for all bytes, not only for those at which a character begins, one
statement says how: a character that begins at a byte or behind it is not before the column of that
byte (`column_le_iff`). That a column is the least of these, and what follows for bytes inside a
character and behind the end, is read off it.

A column may also be counted in passing over the characters of a text as long as they begin before
the byte (`column_eq_length_takeWhile`).

Main statement: `column_rounds_up`.
-/

namespace TruthTable.Text

/-- The byte at which character `k` of the text begins, or at which the text ends. -/
def boundary (text : List Char) (k : Nat) : Nat := utf8Length (text.take k)

/-- The bytes at which the characters of the text begin. -/
def starts (text : List Char) : List Nat := (List.range text.length).map (boundary text)

variable {text : List Char} {j k offset : Nat}

@[simp] theorem boundary_zero (text : List Char) : boundary text 0 = 0 := rfl

@[simp] theorem boundary_cons_succ (c : Char) (cs : List Char) (k : Nat) :
    boundary (c :: cs) (k + 1) = c.utf8Size + boundary cs k := rfl

@[simp] theorem boundary_length (text : List Char) :
    boundary text text.length = utf8Length text := by
  rw [boundary, List.take_length]

theorem boundary_succ (hk : k < text.length) :
    boundary text (k + 1) = boundary text k + text[k].utf8Size := by
  rw [boundary, List.take_succ_eq_append_getElem hk, utf8Length_append]
  rfl

theorem boundary_lt (hjk : j < k) (hk : k ≤ text.length) : boundary text j < boundary text k := by
  induction hjk with
  | refl =>
    rw [boundary_succ hk]
    exact Nat.lt_add_of_pos_right (Char.utf8Size_pos _)
  | step hjk ih =>
    rw [boundary_succ hk]
    exact Nat.lt_add_right _ (ih (Nat.le_of_succ_le hk))

theorem boundary_le (hjk : j ≤ k) (hk : k ≤ text.length) : boundary text j ≤ boundary text k := by
  rcases Nat.lt_or_eq_of_le hjk with hlt | rfl
  · exact Nat.le_of_lt (boundary_lt hlt hk)
  · exact Nat.le_refl _

/-! ## Columns of bytes -/

/-- A character is not before the column of a byte exactly if it begins there or behind it. -/
theorem column_le_iff (hk : k < text.length) :
    column text offset ≤ k ↔ offset ≤ boundary text k := by
  induction text generalizing k offset with
  | nil => cases hk
  | cons c cs ih =>
    rw [column]
    split
    · next hzero =>
      rw [hzero]
      exact ⟨fun _ => Nat.zero_le _, fun _ => Nat.zero_le _⟩
    · next hpos =>
      cases k with
      | zero =>
        rw [boundary_zero]
        omega
      | succ k =>
        rw [boundary_cons_succ, Nat.succ_le_succ_iff, ih (Nat.lt_of_succ_lt_succ hk)]
        omega

/-- The column of a byte of the text, or of its end, is the first boundary that is not before it. -/
theorem isLeast_column (h : offset ≤ utf8Length text) :
    IsLeast {k | k ≤ text.length ∧ offset ≤ boundary text k} (column text offset) := by
  refine ⟨⟨column_le_length text offset, ?_⟩, ?_⟩
  · rcases Nat.lt_or_eq_of_le (column_le_length text offset) with hlt | heq
    · exact (column_le_iff hlt).1 (Nat.le_refl _)
    · rwa [heq, boundary_length]
  · rintro k ⟨hk, hle⟩
    rcases Nat.lt_or_eq_of_le hk with hlt | rfl
    · exact (column_le_iff hlt).2 hle
    · exact column_le_length text offset

/-- Behind the end of the text there is one column for all bytes. -/
theorem column_of_lt (h : utf8Length text < offset) : column text offset = text.length := by
  refine Nat.le_antisymm (column_le_length text offset) (Nat.le_of_not_lt fun hlt => ?_)
  have hoffset : offset ≤ boundary text (column text offset) :=
    (column_le_iff hlt).1 (Nat.le_refl _)
  have hend := boundary_le (Nat.le_of_lt hlt) (Nat.le_refl _)
  rw [boundary_length] at hend
  omega

theorem column_mono (text : List Char) {p q : Nat} (h : p ≤ q) : column text p ≤ column text q := by
  rcases Nat.lt_or_eq_of_le (column_le_length text q) with hlt | heq
  · have hq : q ≤ boundary text (column text q) := (column_le_iff hlt).1 (Nat.le_refl _)
    exact (column_le_iff hlt).2 (Nat.le_trans h hq)
  · rw [heq]
    exact column_le_length text p

/-- The byte at which a character begins has the column of the character. -/
theorem column_boundary (hk : k ≤ text.length) : column text (boundary text k) = k := by
  have hcolumn := column_utf8Length_append (text.take k) (text.drop k)
  rwa [List.take_append_drop, List.length_take, Nat.min_eq_left hk] at hcolumn

/-- A byte inside a character has the column behind it. -/
theorem column_of_inside (hk : k < text.length) (hafter : boundary text k < offset)
    (hbefore : offset < boundary text (k + 1)) : column text offset = k + 1 := by
  have hlt : k < column text offset :=
    Nat.lt_of_not_le fun hle => Nat.not_le_of_lt hafter ((column_le_iff hk).1 hle)
  have hle := column_mono text (Nat.le_of_lt hbefore)
  rw [column_boundary hk] at hle
  exact Nat.le_antisymm hle hlt

/-! ## Columns by counting -/

theorem starts_cons (c : Char) (cs : List Char) :
    starts (c :: cs) = 0 :: (starts cs).map (c.utf8Size + ·) := by
  rw [starts, List.length_cons, List.range_succ_eq_map, List.map_cons, List.map_map, starts,
    List.map_map]
  rfl

/-- The column of a byte is the number of the characters that are passed over while they begin
before it, or before the end if it lies behind the text. -/
theorem column_eq_length_takeWhile (text : List Char) (offset : Nat) :
    column text offset
      = ((starts text).takeWhile fun start => start < min offset (utf8Length text)).length := by
  induction text generalizing offset with
  | nil => rfl
  | cons c cs ih =>
    have hsize := c.utf8Size_pos
    rw [column, starts_cons, List.takeWhile_cons, utf8Length_cons]
    split
    · next hzero => rw [hzero, Nat.zero_min]; rfl
    · next hpos =>
      have hstart : 0 < min offset (c.utf8Size + utf8Length cs) := by omega
      rw [if_pos (decide_eq_true hstart), List.length_cons, List.takeWhile_map, List.length_map, ih]
      -- Behind the first character, all bytes are counted from its end.
      have hshift : (fun start => decide (start < min (offset - c.utf8Size) (utf8Length cs)))
          = (fun start => decide (start < min offset (c.utf8Size + utf8Length cs)))
            ∘ (c.utf8Size + ·) := by
        funext start
        rw [Function.comp_apply, decide_eq_decide]
        omega
      rw [hshift]

/-! ## Columns of offsets -/

/-- The characters of a source begin at increasing bytes, each as far behind the one before as that
one has bytes, and the last one ends with the source. Of the boundaries of the characters, the
column of an offset is the first that is not before it, and the last one if the offset lies behind
the source: it is what one counts while the characters begin before the offset. So a column leads
back to the character that begins at an offset, and to the next character from an offset inside of
one; a greater offset has no smaller column, and no column is beyond the number of characters. -/
theorem column_rounds_up (source : String) :
    (boundary source.toList 0 = 0 ∧
      (∀ k (hk : k < source.toList.length), boundary source.toList (k + 1)
        = boundary source.toList k + (source.toList[k]).utf8Size) ∧
      boundary source.toList source.toList.length = source.utf8ByteSize ∧
      ∀ j k, j < k → k ≤ source.toList.length →
        boundary source.toList j < boundary source.toList k) ∧
    (∀ p : Offset,
      (p.toNat ≤ source.utf8ByteSize →
        IsLeast {k | k ≤ source.toList.length ∧ p.toNat ≤ boundary source.toList k}
          (column source.toList p.toNat)) ∧
      (source.utf8ByteSize < p.toNat → column source.toList p.toNat = source.toList.length) ∧
      column source.toList p.toNat ≤ source.toList.length ∧
      column source.toList p.toNat = ((starts source.toList).takeWhile fun start =>
        start < min p.toNat source.utf8ByteSize).length ∧
      (∀ q : Offset, p ≤ q → column source.toList p.toNat ≤ column source.toList q.toNat) ∧
      ∀ k < source.toList.length, boundary source.toList k < p.toNat →
        p.toNat < boundary source.toList (k + 1) → column source.toList p.toNat = k + 1) ∧
    ∀ k ≤ source.toList.length, boundary source.toList k < UInt32.size →
      column source.toList (UInt32.ofNat (boundary source.toList k)).toNat = k := by
  rw [utf8ByteSize_eq]
  refine ⟨⟨boundary_zero _, fun k hk => boundary_succ hk, boundary_length _,
    fun j k => boundary_lt⟩, fun p => ⟨isLeast_column, column_of_lt, column_le_length _ _,
    column_eq_length_takeWhile _ _, fun q hpq => column_mono _ (UInt32.le_iff_toNat_le.1 hpq),
    fun k => column_of_inside⟩, fun k hk hfits => ?_⟩
  rw [toNat_ofNat_of_lt hfits, column_boundary hk]

/-- The connective has the bytes 2 to 4. The offsets inside of it are shown under the blank behind
it, and an offset beyond the source behind its last character. -/
theorem column_rounds_up_connective :
    column "p ∧ q".toList 3 = 3 ∧ column "p ∧ q".toList 5 = 3 ∧ column "p ∧ q".toList 40 = 5 ∧
      IsLeast {k | k ≤ 5 ∧ 4 ≤ boundary "p ∧ q".toList k} 3 := by
  obtain ⟨-, hcolumns, hback⟩ := column_rounds_up "p ∧ q"
  obtain ⟨-, -, -, -, -, hinside⟩ := hcolumns 3
  obtain ⟨hleast, -⟩ := hcolumns 4
  obtain ⟨-, hbeyond, -⟩ := hcolumns 40
  exact ⟨hinside 2 (by decide) (by decide) (by decide), hback 3 (by decide) (by decide),
    hbeyond (by decide), hleast (by decide)⟩

end TruthTable.Text
