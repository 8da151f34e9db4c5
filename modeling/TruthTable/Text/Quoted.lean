import TruthTable.Text.Extending
import TruthTable.Text.Ignorable
import TruthTable.Text.Invisible
import TruthTable.Text.Unassigned

/-!
# Quoted text

Text inside a message stands in double quotes, so that it can be told from the words
around it, and every character that would not show itself is written as an escape:
quotes and backslashes, line breaks, combining marks, characters that a display leaves
out, code points that nobody has assigned, and all invisible characters but the plain
space.
-/

namespace TruthTable.Text

/-- Whether `c` is written by its number: the plain space is the one invisible character
that stands for itself. -/
def isEscapedByNumber (c : Char) : Bool :=
  isExtending c || isIgnorable c || (isInvisible c && c != ' ') || isUnassigned c

/-- How one character is written between quotes. -/
def escape (c : Char) : List Char :=
  match c with
  | '\x00' => ['\\', '0']
  | '\t' => ['\\', 't']
  | '\n' => ['\\', 'n']
  | '\r' => ['\\', 'r']
  | '"' => ['\\', '"']
  | '\\' => ['\\', '\\']
  | _ =>
    if isEscapedByNumber c then
      ['\\', 'u', '\x7b'] ++ Nat.toDigits 16 c.toNat ++ ['\x7d']
    else
      [c]

/-- The text between double quotes, each character by `escape`. -/
def quote (text : String) : String :=
  String.ofList ('"' :: text.toList.flatMap escape ++ ['"'])

end TruthTable.Text
