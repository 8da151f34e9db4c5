import TruthTable.Text.Column
import TruthTable.Token.Basic

/-!
# Streams of tokens

A `TokenStream` is a place in a source text from which tokens are taken one by one.
Taking a token passes over the gap before it, and a name runs as far as it can. Every
text can be read to its end: there is no character that starts no token.

Main statements: `next?_rest_length_lt`, each token shortens what is left;
`toList_of_next?_eq_some` and `toList_of_next?_eq_none`, the tokens of a stream are the
next one and those of the stream after it.
-/

namespace TruthTable

/-- A list is its longest run of `p` and what is left after as many elements. -/
theorem eq_takeWhile_append_drop {α : Type} (p : α → Bool) (xs : List α) :
    xs = xs.takeWhile p ++ xs.drop (xs.takeWhile p).length := by
  induction xs with
  | nil => rfl
  | cons x xs ih =>
    rw [List.takeWhile_cons]
    split
    · exact congrArg (x :: ·) ih
    · rfl

/-- The kind and the characters of the token that a text without a leading gap begins with. -/
def lexeme? : List Char → Option (Kind × List Char)
  | [] => none
  | c :: cs =>
    match Kind.ofGlyph? c with
    | some kind => some (kind, [c])
    | none => some (.identifier, c :: cs.takeWhile isNameChar)

theorem lexeme?_ne_nil {chars text : List Char} {kind : Kind}
    (h : lexeme? chars = some (kind, text)) : text ≠ [] := by
  unfold lexeme? at h
  split at h
  · cases h
  · split at h <;> (cases h; exact List.cons_ne_nil _ _)

theorem lexeme?_eq_none_iff {chars : List Char} : lexeme? chars = none ↔ chars = [] := by
  unfold lexeme?
  split
  · simp
  · split <;> simp

/-- The beginning of a text is taken from it, never anything else. -/
theorem eq_append_of_lexeme? {chars text : List Char} {kind : Kind}
    (h : lexeme? chars = some (kind, text)) : chars = text ++ chars.drop text.length := by
  unfold lexeme? at h
  split at h
  · cases h
  · split at h <;> cases h
    · rfl
    · exact congrArg _ (eq_takeWhile_append_drop isNameChar _)

/-- A place in a source text: the characters not yet read, and the byte at which they begin. -/
structure TokenStream where
  source : String
  offset : Nat
  rest : List Char
deriving DecidableEq

namespace TokenStream

/-- The beginning of `source`. -/
def start (source : String) : TokenStream := ⟨source, 0, source.toList⟩

/-- The place after `text`, which the rest begins with. -/
def skip (s : TokenStream) (text : List Char) : TokenStream :=
  { s with offset := s.offset + Text.utf8Length text, rest := s.rest.drop text.length }

/-- The place after the gap that the rest begins with. -/
def skipGap (s : TokenStream) : TokenStream := s.skip (s.rest.takeWhile isGap)

/-- The token of the given kind and text at this place. -/
def token (s : TokenStream) (kind : Kind) (text : List Char) : Token :=
  ⟨kind, String.ofList text, Span.ofBytes s.offset (s.offset + Text.utf8Length text)⟩

/-- The next token and the place after it; nothing when only a gap is left. -/
def next? (s : TokenStream) : Option (Token × TokenStream) :=
  (lexeme? s.skipGap.rest).map fun (kind, text) => (s.skipGap.token kind text, s.skipGap.skip text)

/-- The next token, without passing over it. -/
def peek? (s : TokenStream) : Option Token := s.next?.map Prod.fst

theorem rest_length_skip_le (s : TokenStream) (text : List Char) :
    (s.skip text).rest.length ≤ s.rest.length := by
  simp [skip]

theorem next?_rest_length_lt {s s' : TokenStream} {t : Token} (h : s.next? = some (t, s')) :
    s'.rest.length < s.rest.length := by
  obtain ⟨⟨kind, text⟩, hlexeme, hstep⟩ := Option.map_eq_some_iff.1 h
  cases hstep
  have hgap : s.skipGap.rest.length ≤ s.rest.length := s.rest_length_skip_le _
  have hpos : 0 < text.length := List.length_pos_iff.2 (lexeme?_ne_nil hlexeme)
  have hsplit := congrArg List.length (eq_append_of_lexeme? hlexeme)
  rw [List.length_append] at hsplit
  show (s.skipGap.rest.drop text.length).length < s.rest.length
  omega

/-- The tokens from this place to the end of the source. -/
def toList (s : TokenStream) : List Token :=
  match h : s.next? with
  | none => []
  | some (t, s') =>
    have := next?_rest_length_lt h
    t :: s'.toList
termination_by s.rest.length

theorem toList_of_next?_eq_none {s : TokenStream} (h : s.next? = none) : s.toList = [] := by
  rw [toList]
  split
  · rfl
  · next h' => rw [h] at h'; cases h'

theorem toList_of_next?_eq_some {s s' : TokenStream} {t : Token} (h : s.next? = some (t, s')) :
    s.toList = t :: s'.toList := by
  rw [toList]
  split
  · next h' => rw [h] at h'; cases h'
  · next h' => rw [h] at h'; cases h'; rfl

end TokenStream

/-- The tokens of a source text. -/
def tokens (source : String) : List Token := (TokenStream.start source).toList

end TruthTable
