import TruthTable.Proofs.Reading.Precedence

/-!
# How deep reading nests, and what it takes

An operand is read where fewer tokens are pending than before, whatever the rules say, since a
rule can only ask for one after it has read a token. So calls of `Rules.read` nest no deeper than
there are tokens, and one call more for the end of the source: `Rules.readWithin` gives up below a
depth, and from that depth on its answer is the one of `Rules.read`, however it gives up.

On a stream, reading takes tokens one by one from where the stream stands
(`TokenStream.Takes`), at least one of them if there is a formula, and leaves the stream where
they end with their names registered. The rules are given to reading and are nothing that it
could leave in another state.

Main statement: `Rules.read_takes`.
-/

namespace TruthTable

/-! ## Depth -/

namespace Rules

/-- Reads as `Rules.read` does, with calls nested up to a depth; `deep` answers those below. -/
def readWithin (rules : Rules)
    (deep : BindingPower → (r : Reader) → Outcome Formula r.pending.length) :
    Nat → BindingPower → (r : Reader) → Outcome Formula r.pending.length
  | 0 => deep
  | depth + 1 => fun power r => rules.readStep power r fun p s _ => readWithin rules deep depth p s

/-- No call is nested deeper than tokens are pending, and one more. -/
theorem readWithin_eq (rules : Rules)
    (deep : BindingPower → (r : Reader) → Outcome Formula r.pending.length) {depth : Nat}
    (power : BindingPower) {r : Reader} (hdepth : r.pending.length < depth) :
    rules.readWithin deep depth power r = rules.read power r := by
  induction depth generalizing power r with
  | zero => exact absurd hdepth (Nat.not_lt_zero _)
  -- An operand is read where fewer tokens are pending, so one call less will do.
  | succ depth ih =>
    have hoperand : (fun p s (_ : s.pending.length < r.pending.length) =>
        rules.readWithin deep depth p s) = fun p s _ => rules.read p s := by
      funext p s hs
      exact ih p (by omega)
    show rules.readStep power r (fun p s _ => rules.readWithin deep depth p s) = _
    rw [hoperand, read]

end Rules

/-! ## Taking tokens from a stream -/

namespace TokenStream

/-- From `s` the tokens are taken one after the other, and `rest` is where the last one ends. -/
inductive Takes : TokenStream → List Token → TokenStream → Prop where
  | refl (s) : Takes s [] s
  | step {s s' rest t ts} (hnext : s.next? = some (t, s')) (hrest : Takes s' ts rest) :
      Takes s (t :: ts) rest

theorem source_of_next? {s s' : TokenStream} {t : Token} (h : s.next? = some (t, s')) :
    s'.source = s.source := by
  obtain ⟨_, -, hstep⟩ := Option.map_eq_some_iff.1 h
  cases hstep
  rfl

namespace Takes

variable {s rest : TokenStream} {ts : List Token}

theorem source_eq (h : s.Takes ts rest) : rest.source = s.source := by
  induction h with
  | refl s => rfl
  | step hnext _ ih => exact ih.trans (source_of_next? hnext)

theorem toList_eq (h : s.Takes ts rest) : s.toList = ts ++ rest.toList := by
  induction h with
  | refl s => rfl
  | step hnext _ ih => rw [toList_of_next?_eq_some hnext, ih, List.cons_append]

end Takes

/-- Tokens at the front of a stream can be taken from it. -/
theorem exists_takes {s : TokenStream} {ts us : List Token} (h : s.toList = ts ++ us) :
    ∃ rest, s.Takes ts rest ∧ rest.toList = us := by
  induction ts generalizing s with
  | nil => exact ⟨s, .refl s, h⟩
  | cons t ts ih =>
    cases hnext : s.next? with
    | none =>
      rw [toList_of_next?_eq_none hnext] at h
      cases h
    | some next =>
      rw [toList_of_next?_eq_some hnext, List.cons_append] at h
      obtain ⟨rfl, htail⟩ := List.cons.inj h
      obtain ⟨rest, htakes, hrest⟩ := ih htail
      exact ⟨rest, .step hnext htakes, hrest⟩

end TokenStream

/-- What is left of a stream after reading is a stream. -/
theorem Reader.ReadTo.exists_ofStream {s : TokenStream} {vs : Variables} {ts : List Token}
    {r : Reader} (h : (Reader.ofStream s vs).ReadTo ts r) :
    ∃ rest, s.Takes ts rest ∧ r = .ofStream rest (vs.noteAll ts) := by
  obtain ⟨source, pending, seen⟩ := r
  obtain ⟨rest, htakes, hpending⟩ := TokenStream.exists_takes h.pending_eq
  have hsource : source = rest.source := h.source_eq.trans htakes.source_eq.symm
  have hseen : seen = vs.noteAll ts := h.seen_eq
  refine ⟨rest, htakes, ?_⟩
  rw [Reader.ofStream, hpending, hsource, hseen]

/-- Fewer tokens are pending after a formula has been read. -/
theorem Outcome.length_rest_lt {α : Type} {limit : Nat} {o : Outcome α limit} {value : α}
    (h : o.result = .ok value) : o.rest.pending.length < limit := by
  cases o with
  | done value rest shorter => exact shorter
  | failed error rest => cases h

/-- By any rules, from any place of a source and at any power, reading comes to an end with no
more calls nested in each other than there are tokens left, and one. Whether it gives a formula
or an error, it leaves a later place of the same source, and the names of the tokens up to there
registered; for a formula there is at least one such token. A token that is expected and is not
there leaves all as it is. -/
theorem Rules.read_takes (rules : Rules) (s : TokenStream) (vs : Variables) (power : BindingPower) :
    (∀ deep, rules.readWithin deep (s.toList.length + 1) power (.ofStream s vs)
      = rules.read power (.ofStream s vs)) ∧
    (∃ ts rest, s.Takes ts rest ∧ s.toList = ts ++ rest.toList ∧ rest.source = s.source ∧
      (rules.read power (.ofStream s vs)).rest = .ofStream rest (vs.noteAll ts) ∧
      ∀ f, (rules.read power (.ofStream s vs)).result = .ok f → ts ≠ []) ∧
    ∀ kind error error' r,
      ((Reader.ofStream s vs).expectOr kind error = .failed error' r → r = .ofStream s vs) ∧
      ((Reader.ofStream s vs).expect kind = .failed error' r → r = .ofStream s vs) := by
  refine ⟨fun deep => ?_, ?_, fun kind error error' r => ?_⟩
  · exact rules.readWithin_eq deep power (Nat.lt_succ_self _)
  · obtain ⟨ts, hts⟩ := rules.read_follows power (Reader.ofStream s vs)
    obtain ⟨rest, htakes, hrest⟩ := hts.exists_ofStream
    refine ⟨ts, rest, htakes, htakes.toList_eq, htakes.source_eq, hrest, fun f hf hnil => ?_⟩
    have hpending := congrArg List.length hts.pending_eq
    have hlt := Outcome.length_rest_lt hf
    rw [hnil, List.nil_append] at hpending
    omega
  · exact ⟨Reader.expectOr_failed, Reader.expectOr_failed⟩

/-- A rule for negation that is set at names fails, and has taken and registered the name. -/
theorem Rules.read_misplaced_negation :
    ∃ rest, (TokenStream.start "p q").Takes [⟨.identifier, "p", ⟨0, 1⟩⟩] rest ∧
      ((standard.withHead .identifier .negation).read .lowest
        (.ofStream (.start "p q") .empty)).rest = .ofStream rest ⟨["p"]⟩ := by
  have hread : ((standard.withHead .identifier .negation).read .lowest
      (.ofStream (.start "p q") .empty)).rest
        = ⟨"p q", [⟨.identifier, "q", ⟨2, 3⟩⟩], ⟨["p"]⟩⟩ := by
    decide +kernel
  have hstart : (TokenStream.start "p q").toList
      = [⟨.identifier, "p", ⟨0, 1⟩⟩] ++ [⟨.identifier, "q", ⟨2, 3⟩⟩] := by
    decide +kernel
  obtain ⟨-, ⟨ts, rest, htakes, hsplit, -, hrest, -⟩, -⟩ :=
    read_takes (standard.withHead .identifier .negation) (.start "p q") .empty .lowest
  have hleft : [⟨.identifier, "q", ⟨2, 3⟩⟩] = rest.toList :=
    congrArg Reader.pending (hread.symm.trans hrest)
  rw [hstart, ← hleft] at hsplit
  obtain rfl := List.append_cancel_right hsplit
  exact ⟨rest, htakes, hrest⟩

end TruthTable
