/-!
# Places in a source text

A source text is addressed by byte offsets into its UTF-8 form. An `Offset` has 32 bits,
so the offsets of a text of four gigabytes or more are taken modulo `2 ^ 32`; below that
size they are exact (`toNat_ofNat_of_lt`).
-/

namespace TruthTable

/-- A byte offset into a source text, modulo `2 ^ 32`. -/
abbrev Offset := UInt32

/-- An offset that fits in 32 bits is kept as it is. -/
theorem toNat_ofNat_of_lt {n : Nat} (h : n < UInt32.size) : (UInt32.ofNat n).toNat = n :=
  UInt32.toNat_ofNat_of_lt' h

/-- A stretch of a source text, from the offset `start` up to but not including `stop`. -/
structure Span where
  start : Offset
  stop : Offset
deriving DecidableEq

namespace Span

/-- The span of the bytes `start` to `stop`. -/
def ofBytes (start stop : Nat) : Span := ⟨UInt32.ofNat start, UInt32.ofNat stop⟩

/-- The span from the start of the first to the end of the second. -/
def through (first last : Span) : Span := ⟨first.start, last.stop⟩

end Span

end TruthTable
