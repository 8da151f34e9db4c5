import TruthTable.Error
import TruthTable.Variables

/-!
# Readers

A `Reader` is a source text on its way to a formula: the tokens that are still pending,
and the variables among those already read. Looking at the next token changes nothing;
reading it registers its name.

A step of reading ends in an `Outcome`, with a value or an error and in both cases with
the reader as the step leaves it. A value comes with the proof that fewer tokens are
pending than before, which is what reading ends by: no step that answers can be repeated
for ever.
-/

namespace TruthTable

/-- A source text with its pending tokens and the variables read so far. -/
structure Reader where
  source : String
  pending : List Token
  seen : Variables
deriving DecidableEq

/-- How a step of reading ends; a value leaves fewer than `limit` tokens pending. -/
inductive Outcome (α : Type) (limit : Nat) where
  | done (value : α) (rest : Reader) (shorter : rest.pending.length < limit)
  | failed (error : Error) (rest : Reader)

namespace Outcome

variable {α β : Type} {limit : Nat}

/-- The value or the error. -/
def result : Outcome α limit → Except Error α
  | done value _ _ => .ok value
  | failed error _ => .error error

/-- The reader as the step leaves it. -/
def rest : Outcome α limit → Reader
  | done _ rest _ => rest
  | failed _ rest => rest

/-- The same outcome with a value computed from its value. -/
def map (f : α → β) : Outcome α limit → Outcome β limit
  | done value rest shorter => done (f value) rest shorter
  | failed error rest => failed error rest

/-- The same outcome under a weaker limit. -/
def widen {wider : Nat} (h : limit ≤ wider) : Outcome α limit → Outcome α wider
  | done value rest shorter => done value rest (Nat.lt_of_lt_of_le shorter h)
  | failed error rest => failed error rest

/-- A step after another one, unless that has failed. -/
def andThen (first : Outcome α limit)
    (step : α → (r : Reader) → r.pending.length < limit → Outcome β r.pending.length) :
    Outcome β limit :=
  match first with
  | done value rest shorter => (step value rest shorter).widen (Nat.le_of_lt shorter)
  | failed error rest => failed error rest

@[simp] theorem map_done (f : α → β) (value : α) (rest : Reader)
    (shorter : rest.pending.length < limit) :
    (done value rest shorter).map f = done (f value) rest shorter := rfl

@[simp] theorem map_failed (f : α → β) (error : Error) (rest : Reader) :
    (failed error rest : Outcome α limit).map f = failed error rest := rfl

@[simp] theorem widen_done {wider : Nat} (h : limit ≤ wider) (value : α) (rest : Reader)
    (shorter : rest.pending.length < limit) :
    (done value rest shorter).widen h = done value rest (Nat.lt_of_lt_of_le shorter h) := rfl

@[simp] theorem widen_failed {wider : Nat} (h : limit ≤ wider) (error : Error) (rest : Reader) :
    (failed error rest : Outcome α limit).widen h = failed error rest := rfl

@[simp] theorem andThen_done (value : α) (rest : Reader) (shorter : rest.pending.length < limit)
    (step : α → (r : Reader) → r.pending.length < limit → Outcome β r.pending.length) :
    (done value rest shorter).andThen step
      = (step value rest shorter).widen (Nat.le_of_lt shorter) := rfl

@[simp] theorem andThen_failed (error : Error) (rest : Reader)
    (step : α → (r : Reader) → r.pending.length < limit → Outcome β r.pending.length) :
    (failed error rest).andThen step = failed error rest := rfl

end Outcome

namespace Reader

/-- A reader at the beginning of `source`; the variables it is given are emptied. -/
def start (vs : Variables) (source : String) : Reader := ⟨source, tokens source, vs.clear⟩

/-- The next token, without reading it. -/
def peek? (r : Reader) : Option Token := r.pending.head?

/-- The offset after the last byte of the source. -/
def endOffset (r : Reader) : Offset := UInt32.ofNat r.source.utf8ByteSize

/-- Where the next token starts, or the end of the source. -/
def lookahead (r : Reader) : Offset :=
  match r.peek? with
  | some t => t.span.start
  | none => r.endOffset

/-- The error that the next token, or the end of the source, is not what is due here. -/
def unexpected (r : Reader) : Error :=
  match r.peek? with
  | some t => ⟨.unexpectedToken t.text, t.span.start⟩
  | none => ⟨.unexpectedEnd, r.endOffset⟩

/-- Reads the next token, whatever it is. -/
def advance : (r : Reader) → Outcome Token r.pending.length
  | ⟨source, t :: ts, vs⟩ => .done t ⟨source, ts, vs.note t⟩ (Nat.lt_succ_self _)
  | ⟨source, [], vs⟩ => .failed (unexpected ⟨source, [], vs⟩) ⟨source, [], vs⟩

/-- Reads the next token if it is of the given kind, and fails with `error` otherwise. -/
def expectOr (r : Reader) (kind : Kind) (error : Error) : Outcome Token r.pending.length :=
  if r.peek?.map Token.kind = some kind then r.advance else .failed error r

/-- Reads the next token, which has to be of the given kind. -/
def expect (r : Reader) (kind : Kind) : Outcome Token r.pending.length :=
  r.expectOr kind r.unexpected

end Reader

end TruthTable
