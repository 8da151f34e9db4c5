/-!
# Calls that panic

Memory is taken to be as large as one likes, but a block of it has to be addressed, and no
block has more bytes than half of the addresses of 64 bits. A call that asks for a larger
block does not answer: it panics, before anything is written to the block, and nothing that
would have been done afterwards is done.
-/

namespace TruthTable

/-- What a call comes to: an answer, or a panic instead of one. -/
inductive Call (α : Type) where
  | returns (answer : α)
  | panics
deriving DecidableEq

namespace Call

variable {α β : Type}

/-- The call with something done to its answer. -/
def map (f : α → β) : Call α → Call β
  | returns answer => returns (f answer)
  | panics => panics

@[simp] theorem map_returns (f : α → β) (answer : α) :
    (returns answer).map f = returns (f answer) := rfl

@[simp] theorem map_panics (f : α → β) : (panics : Call α).map f = panics := rfl

/-- Whether the call panics. -/
def isPanic : Call α → Bool
  | returns _ => false
  | panics => true

/-- The answers to calls that are made in turn, up to the first one that panics. -/
def answersOf : List (Call α) → List α
  | returns answer :: calls => answer :: answersOf calls
  | _ => []

/-- More calls are made only where none has panicked. -/
theorem answersOf_append (calls more : List (Call α)) :
    answersOf (calls ++ more)
      = if calls.any isPanic then answersOf calls else answersOf calls ++ answersOf more := by
  induction calls with
  | nil => rfl
  | cons call calls ih =>
    cases call with
    | panics => rfl
    | returns answer =>
      show answer :: answersOf (calls ++ more) =
        if calls.any isPanic then answer :: answersOf calls
        else answer :: (answersOf calls ++ answersOf more)
      rw [ih]
      split <;> rfl

end Call

/-- The most bytes that a block of memory can have. -/
def largestBlock : Nat := 9223372036854775807

/-- The bytes that a list takes in a block of lists: where its elements are, for how many of
them there is room, and how many there are. -/
def listBytes : Nat := 24

/-- Asks for a block with room for a number of rows, which are lists. -/
def reserveRows (count : Nat) : Call Unit :=
  if listBytes * count ≤ largestBlock then .returns () else .panics

end TruthTable
