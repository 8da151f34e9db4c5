import TruthTable.Reading.Formula

/-!
# What reading does to a reader

Whatever the rules, and whether it ends in a value or in an error, reading takes tokens
from the front of those that are pending and registers their names in that order. It
does nothing else to the reader: tokens that were only looked at leave no trace, and the
source stays.

A step of reading *follows* from a reader when it leaves it in such a way
(`Outcome.Follows`). Outcomes that follow can be chained (`follows_andThen`), so each
rule follows if the operands do, and `Rules.read_follows` closes the circle by induction
on the tokens that are pending.
-/

namespace TruthTable

/-- `rest` is `r` after the tokens `ts` have been read. -/
structure Reader.ReadTo (r : Reader) (ts : List Token) (rest : Reader) : Prop where
  source_eq : rest.source = r.source
  pending_eq : r.pending = ts ++ rest.pending
  seen_eq : rest.seen = r.seen.noteAll ts

namespace Reader.ReadTo

theorem refl (r : Reader) : r.ReadTo [] r := ⟨rfl, rfl, rfl⟩

theorem trans {r s u : Reader} {ts us : List Token} (h : r.ReadTo ts s) (k : s.ReadTo us u) :
    r.ReadTo (ts ++ us) u where
  source_eq := k.source_eq.trans h.source_eq
  pending_eq := by rw [h.pending_eq, k.pending_eq, List.append_assoc]
  seen_eq := by rw [k.seen_eq, h.seen_eq, Variables.noteAll_append]

end Reader.ReadTo

namespace Outcome

variable {α β : Type} {limit : Nat}

/-- The step leaves `r` with some tokens read and otherwise as it was. -/
def Follows (r : Reader) (o : Outcome α limit) : Prop := ∃ ts, r.ReadTo ts o.rest

theorem follows_failed (error : Error) (r : Reader) :
    (failed error r : Outcome α limit).Follows r :=
  ⟨[], .refl r⟩

theorem Follows.map {r : Reader} {o : Outcome α limit} (h : o.Follows r) (f : α → β) :
    (o.map f).Follows r := by
  cases o <;> exact h

theorem Follows.widen {r : Reader} {o : Outcome α limit} (h : o.Follows r) {wider : Nat}
    (hle : limit ≤ wider) : (o.widen hle).Follows r := by
  cases o <;> exact h

/-- A step that follows can go on with one that follows from where it ends. -/
theorem Follows.trans {r s : Reader} {ts : List Token} (h : r.ReadTo ts s) {o : Outcome α limit}
    (k : o.Follows s) : o.Follows r := by
  obtain ⟨us, hus⟩ := k
  exact ⟨ts ++ us, h.trans hus⟩

theorem Follows.andThen {r : Reader} {o : Outcome α limit} (h : o.Follows r)
    {step : α → (s : Reader) → s.pending.length < limit → Outcome β s.pending.length}
    (hstep : ∀ value s shorter, (step value s shorter).Follows s) :
    (o.andThen step).Follows r := by
  cases o with
  | failed error s => exact h
  | done value s shorter =>
    obtain ⟨ts, hts⟩ := h
    exact Follows.trans hts ((hstep value s shorter).widen (Nat.le_of_lt shorter))

end Outcome

namespace Reader

theorem advance_follows (r : Reader) : r.advance.Follows r := by
  obtain ⟨source, pending, vs⟩ := r
  cases pending with
  | nil => exact ⟨[], .refl _⟩
  | cons t ts => exact ⟨[t], rfl, rfl, rfl⟩

theorem expectOr_follows (r : Reader) (kind : Kind) (error : Error) :
    (r.expectOr kind error).Follows r := by
  unfold expectOr
  split
  · exact advance_follows r
  · exact Outcome.follows_failed error r

/-- A token that is not the one expected is left pending, and so is the reader as a whole. -/
theorem expectOr_failed {r rest : Reader} {kind : Kind} {error error' : Error}
    (h : r.expectOr kind error = .failed error' rest) : rest = r := by
  unfold expectOr at h
  split at h
  · next hkind =>
    obtain ⟨source, pending, vs⟩ := r
    cases pending with
    | nil => cases hkind
    | cons t ts => cases h
  · cases h
    rfl

end Reader

/-! ## Rules -/

theorem HeadRule.read_follows (rule : HeadRule) (r : Reader)
    {operand : OperandReader r.pending.length}
    (h : ∀ power s shorter, (operand power s shorter).Follows s) :
    (rule.read r operand).Follows r := by
  cases rule with
  | name => exact (r.expectOr_follows _ _).map _
  | negation =>
    refine r.advance_follows.andThen fun sign s _ => ?_
    split
    · exact (h _ _ _).map _
    · exact Outcome.follows_failed _ s
  | group =>
    refine (r.expectOr_follows _ _).andThen fun _ _ _ => (h _ _ _).andThen fun _ s _ => ?_
    exact (s.expectOr_follows _ _).map _

theorem TailRule.read_follows (rule : TailRule) (left : Formula) (power : BindingPower) (r : Reader)
    {operand : OperandReader r.pending.length}
    (h : ∀ power s shorter, (operand power s shorter).Follows s) :
    (rule.read left power r operand).Follows r := by
  cases rule with
  | connective =>
    refine r.advance_follows.andThen fun sign s _ => ?_
    split
    · exact (h _ _ _).map _
    · exact Outcome.follows_failed _ s
  | assignment => exact (r.expectOr_follows _ _).andThen fun _ _ _ => (h _ _ _).map _

namespace Rules

theorem readTails_follows (rules : Rules) (power : BindingPower) (left : Formula) (r : Reader)
    {operand : OperandReader r.pending.length}
    (h : ∀ power s shorter, (operand power s shorter).Follows s) :
    (rules.readTails power left r operand).Follows r := by
  fun_induction readTails rules power left r operand with
  | case1 => exact ⟨[], .refl _⟩
  | case2 left r operand tighter rule _ error s hread =>
    have := rule.read_follows left tighter r h
    rwa [hread] at this
  | case3 left r operand tighter rule _ longer s shorter hread ih =>
    have := rule.read_follows left tighter r h
    rw [hread] at this
    obtain ⟨ts, hts⟩ := this
    exact .trans hts ((ih fun power u _ => h power u _).widen _)

theorem readStep_follows (rules : Rules) (power : BindingPower) (r : Reader)
    {operand : OperandReader r.pending.length}
    (h : ∀ power s shorter, (operand power s shorter).Follows s) :
    (rules.readStep power r operand).Follows r := by
  unfold readStep
  split
  · exact Outcome.follows_failed _ r
  · next rule _ =>
    have := rule.read_follows r h
    split
    · next error s hread => rwa [hread] at this
    · next left s shorter hread =>
      rw [hread] at this
      obtain ⟨ts, hts⟩ := this
      exact .trans hts ((rules.readTails_follows power left s fun power u _ => h power u _).widen _)

/-- Reading takes tokens from the front, registers their names, and leaves all else as it
was. -/
theorem read_follows (rules : Rules) (power : BindingPower) (r : Reader) :
    (rules.read power r).Follows r := by
  fun_induction read rules power r with
  | case1 power r ih => exact rules.readStep_follows power r ih

end Rules

end TruthTable
