import TruthTable.Token.Stream

/-!
# Variables

The variables of a formula are its distinct names in the order in which they first
occur. The place of a name in that order is its *slot*: the column of the variable in a
truth table, and the place of its value in a valuation.

Main statements: `slot?_eq_some_iff` (a slot is the place of the name, when no name
occurs twice), `nodup_register` (registering keeps the names distinct) and
`slot?_register` (a registered name has the slot that was answered).
-/

namespace TruthTable

/-- Names in the order of their first occurrence. -/
structure Variables where
  names : List String
deriving DecidableEq

namespace Variables

/-- No variables. -/
def empty : Variables := ⟨[]⟩

/-- The same collection without its names. -/
def clear (_ : Variables) : Variables := empty

/-- How many variables there are. -/
def count (vs : Variables) : Nat := vs.names.length

/-- Whether there are no variables. -/
def isEmpty (vs : Variables) : Bool := vs.names.isEmpty

/-- The place of a name among the variables. -/
def slot? (vs : Variables) (name : String) : Option Nat := vs.names.idxOf? name

/-- The slot of a name, which is added at the end if it is new. -/
def register (vs : Variables) (name : String) : Nat × Variables :=
  match vs.slot? name with
  | some slot => (slot, vs)
  | none => (vs.count, ⟨vs.names ++ [name]⟩)

/-- The variables after a token has been read: names are registered, signs leave no trace. -/
def note (vs : Variables) (t : Token) : Variables :=
  if t.kind = .identifier then (vs.register t.text).2 else vs

/-- The variables after tokens have been read one after the other. -/
def noteAll (vs : Variables) (ts : List Token) : Variables := ts.foldl note vs

@[simp] theorem noteAll_nil (vs : Variables) : vs.noteAll [] = vs := rfl

@[simp] theorem noteAll_cons (vs : Variables) (t : Token) (ts : List Token) :
    vs.noteAll (t :: ts) = (vs.note t).noteAll ts := rfl

@[simp] theorem noteAll_append (vs : Variables) (ts us : List Token) :
    vs.noteAll (ts ++ us) = (vs.noteAll ts).noteAll us := List.foldl_append

theorem slot?_eq_some_iff {vs : Variables} (h : vs.names.Nodup) {name : String} {slot : Nat} :
    vs.slot? name = some slot ↔ vs.names[slot]? = some name := by
  rw [slot?, List.idxOf?_eq_some_iff, List.getElem?_eq_some_iff]
  constructor
  · rintro ⟨hlt, heq, _⟩
    exact ⟨hlt, heq⟩
  · rintro ⟨hlt, heq⟩
    refine ⟨hlt, heq, fun j hj hother => ?_⟩
    have := (List.getElem_inj h).1 (heq.trans hother.symm)
    omega

theorem slot?_eq_none_iff {vs : Variables} {name : String} :
    vs.slot? name = none ↔ name ∉ vs.names := by
  rw [slot?, List.idxOf?_eq_none_iff]

theorem nodup_register {vs : Variables} (h : vs.names.Nodup) (name : String) :
    (vs.register name).2.names.Nodup := by
  unfold register
  split
  · exact h
  · next hnew =>
    rw [List.nodup_append]
    refine ⟨h, by simp, ?_⟩
    intro a ha b hb hab
    rw [List.mem_singleton] at hb
    exact slot?_eq_none_iff.1 hnew (hb ▸ hab ▸ ha)

/-- The names only grow at the end. -/
theorem prefix_register (vs : Variables) (name : String) :
    vs.names <+: (vs.register name).2.names := by
  unfold register
  split
  · exact List.prefix_rfl
  · exact List.prefix_append _ _

theorem slot?_register {vs : Variables} (h : vs.names.Nodup) (name : String) :
    (vs.register name).2.slot? name = some (vs.register name).1 := by
  have hnodup := nodup_register h name
  unfold register at hnodup ⊢
  split at hnodup
  · next hold => exact hold
  · exact (slot?_eq_some_iff hnodup).2 (by simp [count])

end Variables

/-! ## Reading tokens and their names -/

/-- The beginning of `source`, and the collection emptied for it. -/
def TokenStream.restart (vs : Variables) (source : String) : TokenStream × Variables :=
  (start source, vs.clear)

/-- Reads the next token of a stream and registers its name. -/
def TokenStream.read? (s : TokenStream) (vs : Variables) :
    Option (Token × TokenStream × Variables) :=
  s.next?.map fun (t, rest) => (t, rest, vs.note t)

/-- The tokens of a source text together with its variables; what the collection held before
is forgotten. -/
def tokenize (vs : Variables) (source : String) : List Token × Variables :=
  (tokens source, vs.clear.noteAll (tokens source))

end TruthTable
