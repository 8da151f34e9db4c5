/-!
# Columns

A text is addressed by byte offsets into its UTF-8 form, and shown by columns, which
count characters. `column` turns the first into the second: it counts the characters
that begin before the offset, so that an offset inside a character belongs to the column
after it, and one beyond the end to the column after the last character.

Main statements: `column_utf8Length_append` (the offset of a character goes to its
index) and `column_le_length`.
-/

namespace TruthTable.Text

/-- How many bytes the UTF-8 form of the characters has. -/
def utf8Length : List Char → Nat
  | [] => 0
  | c :: cs => c.utf8Size + utf8Length cs

@[simp] theorem utf8Length_nil : utf8Length [] = 0 := rfl

@[simp] theorem utf8Length_cons (c : Char) (cs : List Char) :
    utf8Length (c :: cs) = c.utf8Size + utf8Length cs := rfl

@[simp] theorem utf8Length_append (xs ys : List Char) :
    utf8Length (xs ++ ys) = utf8Length xs + utf8Length ys := by
  induction xs with
  | nil => simp
  | cons c cs ih => rw [List.cons_append, utf8Length_cons, ih, utf8Length_cons, Nat.add_assoc]

theorem utf8ByteSize_ofList (chars : List Char) :
    (String.ofList chars).utf8ByteSize = utf8Length chars := by
  induction chars with
  | nil => rfl
  | cons c cs ih =>
    have : String.ofList (c :: cs) = String.singleton c ++ String.ofList cs := by
      simp
    rw [this, String.utf8ByteSize_append, String.utf8ByteSize_singleton, ih, utf8Length_cons]

/-- The size of a string is that of its characters. -/
theorem utf8ByteSize_eq (s : String) : s.utf8ByteSize = utf8Length s.toList := by
  rw [← utf8ByteSize_ofList, String.ofList_toList]

/-- The number of characters that begin before the byte `offset`. -/
def column : List Char → Nat → Nat
  | [], _ => 0
  | c :: cs, offset => if offset = 0 then 0 else column cs (offset - c.utf8Size) + 1

@[simp] theorem column_zero (chars : List Char) : column chars 0 = 0 := by
  cases chars <;> rfl

theorem column_le_length (chars : List Char) (offset : Nat) :
    column chars offset ≤ chars.length := by
  induction chars generalizing offset with
  | nil => exact Nat.le_refl 0
  | cons c cs ih =>
    rw [column]
    split
    · exact Nat.zero_le _
    · exact Nat.succ_le_succ (ih _)

/-- A character that begins at a byte offset is found in the column of its index. -/
theorem column_utf8Length_append (before after : List Char) :
    column (before ++ after) (utf8Length before) = before.length := by
  induction before with
  | nil => exact column_zero after
  | cons c cs ih =>
    have := c.utf8Size_pos
    rw [List.cons_append, column, utf8Length_cons, if_neg (by omega), Nat.add_sub_cancel_left, ih,
      List.length_cons]

/-- The byte `offset` of the text lies between the characters `front` and `rest`. -/
structure SplitsAt (offset : Nat) (text front rest : List Char) : Prop where
  text_eq : text = front ++ rest
  length_eq : utf8Length front = offset

namespace SplitsAt

variable {offset : Nat} {text front rest : List Char}

end SplitsAt

end TruthTable.Text
