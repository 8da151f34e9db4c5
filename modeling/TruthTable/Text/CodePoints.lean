/-!
# Sets of code points

A property of characters that a standard lists by ranges is a `CodePoints`: the ranges, each
by its first and last code point.
-/

namespace TruthTable.Text

/-- A set of code points as ranges, first and last included. -/
abbrev CodePoints := List (Nat × Nat)

/-- Whether `n` lies in one of the ranges. -/
def CodePoints.contains (ranges : CodePoints) (n : Nat) : Bool :=
  ranges.any fun (first, last) => first ≤ n && n ≤ last

end TruthTable.Text
