import TruthTable.Text.CodePoints

/-!
# Characters that leave no mark

The general categories Cc (control), Cf (format), Co (private use), Zl, Zp and Zs
(separators) of Unicode 17.0. The plain space is one of them.
-/

namespace TruthTable.Text

/-- The code points of the general categories Cc, Cf, Co, Zl, Zp and Zs. -/
def invisible : CodePoints := [
  (0x0, 0x20), (0x7f, 0xa0), (0xad, 0xad), (0x600, 0x605), (0x61c, 0x61c), (0x6dd, 0x6dd), (0x70f, 0x70f),
  (0x890, 0x891), (0x8e2, 0x8e2), (0x1680, 0x1680), (0x180e, 0x180e), (0x2000, 0x200f), (0x2028, 0x202f),
  (0x205f, 0x2064), (0x2066, 0x206f), (0x3000, 0x3000), (0xe000, 0xf8ff), (0xfeff, 0xfeff), (0xfff9, 0xfffb),
  (0x110bd, 0x110bd), (0x110cd, 0x110cd), (0x13430, 0x1343f), (0x1bca0, 0x1bca3), (0x1d173, 0x1d17a),
  (0xe0001, 0xe0001), (0xe0020, 0xe007f), (0xf0000, 0xffffd), (0x100000, 0x10fffd)]

/-- Whether `c` is a control, format, private use or separator character. -/
def isInvisible (c : Char) : Bool := invisible.contains c.toNat

end TruthTable.Text
