import TruthTable.Span

/-!
# Tokens

A token is a name or one of seven signs, each written with one character, its *glyph*.
Four characters are gaps between tokens; every character that is neither gap nor glyph
belongs to a name, line breaks included.

Main statement: `Kind.ofGlyph?_eq_some_iff`, a glyph determines its kind and each kind
has at most one glyph.
-/

namespace TruthTable

/-- What a token is. -/
inductive Kind where
  | identifier
  | tilde
  | openParen
  | closeParen
  | and
  | or
  | implies
  | assignment
deriving DecidableEq

namespace Kind

/-- All kinds. -/
def all : List Kind := [identifier, tilde, openParen, closeParen, and, or, implies, assignment]

/-- The name of the kind. -/
def name : Kind → String
  | identifier => "Identifier"
  | tilde => "Tilde"
  | openParen => "OpenParen"
  | closeParen => "CloseParen"
  | and => "And"
  | or => "Or"
  | implies => "Implies"
  | assignment => "Assignment"

/-- The one character that a sign is written with; names have none. -/
def glyph? : Kind → Option Char
  | identifier => none
  | tilde => some '~'
  | openParen => some '('
  | closeParen => some ')'
  | and => some '∧'
  | or => some '∨'
  | implies => some '⇒'
  | assignment => some '='

/-- The sign that a character stands for. -/
def ofGlyph? (c : Char) : Option Kind :=
  match c with
  | '~' => some tilde
  | '(' => some openParen
  | ')' => some closeParen
  | '∧' => some and
  | '∨' => some or
  | '⇒' => some implies
  | '=' => some assignment
  | _ => none

theorem ofGlyph?_eq_some_iff {c : Char} {kind : Kind} :
    ofGlyph? c = some kind ↔ kind.glyph? = some c := by
  constructor
  · intro h
    unfold ofGlyph? at h
    split at h <;> cases h <;> rfl
  · intro h
    cases kind <;> cases h <;> rfl

/-- All kinds but names are signs. -/
def isOperator (kind : Kind) : Bool := kind != identifier

end Kind

/-- The characters between tokens: tab, space, no-break space and NUL. -/
def isGap (c : Char) : Bool := c == '\t' || c == ' ' || c == '\xa0' || c == '\x00'

/-- The characters of names: all but gaps and glyphs. -/
def isNameChar (c : Char) : Bool := !isGap c && (Kind.ofGlyph? c).isNone

/-- A name or sign with its text and its place in the source. -/
structure Token where
  kind : Kind
  text : String
  span : Span
deriving DecidableEq

namespace Token

/-- Whether the token is a sign. -/
def isOperator (t : Token) : Bool := t.kind.isOperator

/-- The token's kind and text, for a reader. -/
def describe (t : Token) : String :=
  "Token \x7b\nkind: " ++ t.kind.name ++ ",\nvalue: " ++ t.text ++ "\x7d"

end Token

end TruthTable
