import TruthTable.Proofs.Correspondence
import TruthTable.Proofs.Table

/-!
# Renaming

What is built from a source depends on its tokens only, and on their names only up to
renaming. `Renames f source source'` says that the two sources have the same tokens but for
the names, which `f` renames one to one, and for the gaps, which may be any.

Every offset differs between the two, so tokens are compared by their index. That a name is
a variable already, and in which slot, is the same for both because `f` is one to one on the
names that are read (`Variables.slot?_rename`); registering one name keeps that
(`Variables.note_rename`), and so does registering all of them. What is read from the two is
alike, and an assignment or a fault stands at the same index.

Main statement: `Table.build_renamed`.
-/

namespace TruthTable

/-! ## Sources up to names and gaps -/

/-- The token `t'` has the kind of `t`, and if it is a name, the text that `f` gives to that of
`t`. -/
structure Token.Renamed (f : String → String) (t t' : Token) : Prop where
  kind_eq : t'.kind = t.kind
  text_eq : t.kind = .identifier → t'.text = f t.text

/-- The tokens of `source'` are those of `source` with their names renamed by `f`, which keeps
different names different. -/
structure Renames (f : String → String) (source source' : String) : Prop where
  tokens_renamed : List.Forall₂ (Token.Renamed f) (tokens source) (tokens source')
  injective : ∀ name ∈ namesIn source, ∀ name' ∈ namesIn source, f name = f name' → name = name'

/-- The tokens `t` of `source` and `t'` of `source'` have the same index. -/
def SameIndex (source source' : String) (t t' : Token) : Prop :=
  ∃ i : Nat, (tokens source)[i]? = some t ∧ (tokens source')[i]? = some t'

/-- A token of `source` and the token of `source'` that stands for it. -/
structure Counterparts (f : String → String) (source source' : String) (t t' : Token) : Prop
    extends Token.Renamed f t t' where
  sameIndex : SameIndex source source' t t'

/-- An error of `source` and the error of `source'` that stands for it. -/
inductive Error.Renamed (f : String → String) (source source' : String) : Error → Error → Prop where
  /-- The same sign is unexpected. -/
  | unexpectedSign {t t' : Token} {glyph : Char} (hindex : SameIndex source source' t t')
      (hglyph : t.kind.glyph? = some glyph) :
      Renamed f source source' ⟨.unexpectedToken (String.ofList [glyph]), t.span.start⟩
        ⟨.unexpectedToken (String.ofList [glyph]), t'.span.start⟩
  /-- A name is unexpected. -/
  | unexpectedName {t t' : Token} (hindex : SameIndex source source' t t')
      (hkind : t.kind = .identifier) :
      Renamed f source source' ⟨.unexpectedToken t.text, t.span.start⟩
        ⟨.unexpectedToken (f t.text), t'.span.start⟩
  /-- A group is not closed before a token, or an assignment begins with it. -/
  | atToken {t t' : Token} {cause : Cause} (hindex : SameIndex source source' t t')
      (hcause : cause = .unclosedGroup ∨ cause = .noTruthValue "Assignment") :
      Renamed f source source' ⟨cause, t.span.start⟩ ⟨cause, t'.span.start⟩
  /-- The source ends too early. -/
  | atEnd {cause : Cause} (hcause : cause = .unclosedGroup ∨ cause = .unexpectedEnd) :
      Renamed f source source' ⟨cause, UInt32.ofNat source.utf8ByteSize⟩
        ⟨cause, UInt32.ofNat source'.utf8ByteSize⟩
  /-- There are as many variables, and too many. -/
  | tooMany (count limit : Nat) :
      Renamed f source source' ⟨.tooManyVariables count limit, 0⟩ ⟨.tooManyVariables count limit, 0⟩

/-! ## Registering other names -/

namespace Variables

variable {f : String → String} {vs : Variables}

/-- The variables under the names that `f` gives to theirs. -/
def rename (f : String → String) (vs : Variables) : Variables := ⟨vs.names.map f⟩

/-- A renamed name is found in the slot of the name. -/
theorem slot?_rename {name : String} (h : ∀ other ∈ vs.names, f other = f name → other = name) :
    (vs.rename f).slot? (f name) = vs.slot? name := by
  obtain ⟨names⟩ := vs
  unfold slot? rename
  induction names with
  | nil => rfl
  | cons other names ih =>
    have hhead : (f other == f name) = (other == name) := by
      rw [Bool.eq_iff_iff, beq_iff_eq, beq_iff_eq]
      exact ⟨h other List.mem_cons_self, congrArg f⟩
    rw [List.map_cons, List.idxOf?_cons, List.idxOf?_cons, hhead,
      ih fun other hother => h other (List.mem_cons_of_mem _ hother)]

theorem register_rename {name : String} (h : ∀ other ∈ vs.names, f other = f name → other = name) :
    ((vs.rename f).register (f name)).2 = (vs.register name).2.rename f := by
  rw [register, register, slot?_rename h]
  cases vs.slot? name with
  | some slot => rfl
  | none =>
    show (⟨vs.names.map f ++ [f name]⟩ : Variables) = ⟨(vs.names ++ [name]).map f⟩
    rw [List.map_append]
    rfl

theorem note_rename {t t' : Token} (ht : Token.Renamed f t t')
    (h : t.kind = .identifier → ∀ other ∈ vs.names, f other = f t.text → other = t.text) :
    (vs.rename f).note t' = (vs.note t).rename f := by
  rw [note, note, ht.kind_eq]
  split
  · next hkind => rw [ht.text_eq hkind, register_rename (h hkind)]
  · rfl

/-- Registering renamed names gives the renamed variables, if the names that are registered stay
different. -/
theorem noteAll_rename {ts ts' : List Token} (hts : List.Forall₂ (Token.Renamed f) ts ts')
    (h : ∀ name ∈ (vs.noteAll ts).names, ∀ name' ∈ (vs.noteAll ts).names,
      f name = f name' → name = name') :
    (vs.rename f).noteAll ts' = (vs.noteAll ts).rename f := by
  induction hts generalizing vs with
  | nil => rfl
  | @cons t t' ts ts' ht _ ih =>
    have hstep : (vs.rename f).note t' = (vs.note t).rename f := by
      refine note_rename ht fun hkind other hother => ?_
      have hold := subset_noteAll _ ts (vs.subset_note t hother)
      exact h other hold t.text (subset_noteAll _ ts (vs.text_mem_note hkind))
    rw [noteAll_cons, noteAll_cons, hstep]
    exact ih h

/-- By slot, a renamed name has the value of the name. -/
theorem lookup_rename {name : String} (h : ∀ other ∈ vs.names, f other = f name → other = name)
    (valuation : Valuation) :
    (vs.rename f).lookup valuation (f name) = vs.lookup valuation name := by
  rw [lookup, lookup, value?, value?, slot?_rename h]

end Variables

/-! ## What is read, and what is wrong -/

theorem namesIn_eq_noteAll (source : String) :
    namesIn source = (Variables.empty.noteAll (tokens source)).names := by
  rw [Variables.empty_noteAll, namesIn]

/-- The text of a name in a source is one of its names. -/
theorem text_mem_namesIn {source : String} {t : Token} (ht : t ∈ tokens source)
    (hkind : t.kind = .identifier) : t.text ∈ namesIn source := by
  rw [namesIn_eq_noteAll]
  exact Variables.text_mem_noteAll _ ht hkind

/-- Related elements of two lists have the same index. -/
theorem forall₂_sameIndex {α β : Type} {S : α → β → Prop} {xs : List α} {ys : List β}
    (h : List.Forall₂ S xs ys) :
    List.Forall₂ (fun x y => S x y ∧ ∃ i : Nat, xs[i]? = some x ∧ ys[i]? = some y) xs ys := by
  induction h with
  | nil => exact .nil
  | cons hx _ ih =>
    exact .cons ⟨hx, 0, rfl, rfl⟩ (ih.imp fun x y ⟨hxy, i, hi, hi'⟩ => ⟨hxy, i + 1, hi, hi'⟩)

namespace Renames

variable {f : String → String} {source source' : String}

theorem counterparts (h : Renames f source source') :
    List.Forall₂ (Counterparts f source source') (tokens source) (tokens source') :=
  (forall₂_sameIndex h.tokens_renamed).imp fun _ _ ht => ⟨ht.1, ht.2⟩

/-- The names are renamed, and stay in their order. -/
theorem rename_namesIn (h : Renames f source source') :
    (⟨namesIn source'⟩ : Variables) = Variables.rename f ⟨namesIn source⟩ := by
  have hinjective := h.injective
  rw [namesIn_eq_noteAll] at hinjective
  have hrename : (Variables.empty.rename f).noteAll (tokens source')
      = (Variables.empty.noteAll (tokens source)).rename f :=
    Variables.noteAll_rename h.tokens_renamed hinjective
  rw [namesIn_eq_noteAll, namesIn_eq_noteAll]
  exact hrename

theorem namesIn_eq (h : Renames f source source') : namesIn source' = (namesIn source).map f :=
  congrArg Variables.names h.rename_namesIn

/-- Formulas that are alike have the same rows. -/
theorem rows_eq (h : Renames f source source') {g g' : Formula}
    (hg : g.Alike (Counterparts f source source') g') :
    g'.rows ⟨namesIn source'⟩ = g.rows ⟨namesIn source⟩ := by
  have hcount : (Variables.rename f ⟨namesIn source⟩).count = (⟨namesIn source⟩ : Variables).count :=
    List.length_map _
  rw [h.rename_namesIn, Formula.rows, Formula.rows, hcount]
  refine List.map_congr_left fun v _ => congrArg (Row.mk v) (decide_eq_decide.2 ?_)
  refine hg.holds_iff fun t t' ht hkind => ?_
  obtain ⟨i, hi, -⟩ := ht.sameIndex
  have hname : t.text ∈ namesIn source := text_mem_namesIn (List.mem_of_getElem? hi) hkind
  rw [ht.text_eq hkind]
  exact Variables.lookup_rename (fun other hother => h.injective other hother _ hname) v

/-- What is unexpected at an index of the one source is the same in the other. -/
theorem unexpected_renamed {next next' : Option Token}
    (hnext : Option.Rel (Counterparts f source source') next next') :
    Error.Renamed f source source' ⟨unexpectedCause next, startOf source next⟩
      ⟨unexpectedCause next', startOf source' next'⟩ := by
  cases hnext with
  | none => exact .atEnd (Or.inr rfl)
  | @some t t' ht =>
    obtain ⟨i, hi, hi'⟩ := ht.sameIndex
    by_cases hkind : t.kind = .identifier
    · rw [unexpectedCause, unexpectedCause, ht.text_eq hkind]
      exact .unexpectedName ht.sameIndex hkind
    · have hproper := proper_of_mem_tokens (List.mem_of_getElem? hi)
      have hproper' := proper_of_mem_tokens (List.mem_of_getElem? hi')
      obtain ⟨glyph, hglyph, htext⟩ := hproper.exists_glyph hkind
      obtain ⟨glyph', hglyph', htext'⟩ := hproper'.exists_glyph (ht.kind_eq ▸ hkind)
      rw [ht.kind_eq, hglyph] at hglyph'
      cases hglyph'
      rw [unexpectedCause, unexpectedCause, htext, htext']
      exact .unexpectedSign ht.sameIndex hglyph

theorem unclosed_renamed {next next' : Option Token}
    (hnext : Option.Rel (Counterparts f source source') next next') :
    Error.Renamed f source source' ⟨.unclosedGroup, startOf source next⟩
      ⟨.unclosedGroup, startOf source' next'⟩ := by
  cases hnext with
  | none => exact .atEnd (Or.inl rfl)
  | some ht => exact .atToken ht.sameIndex (Or.inl rfl)

/-- The errors of the same index stand for each other. -/
theorem faultAt_renamed (h : Renames f source source') (i : Nat) :
    Error.Renamed f source source' (faultAt source (tokens source) i)
      (faultAt source' (tokens source') i) := by
  have hnext := rel_getElem? h.counterparts i
  rcases faultAt_alike (fun _ _ ht => ht.kind_eq) source source' h.counterparts i with
    ⟨hf, hf'⟩ | ⟨hf, hf'⟩
  · rw [hf, hf']
    exact unclosed_renamed hnext
  · rw [hf, hf']
    exact unexpected_renamed hnext

end Renames

/-! ## Tables -/

namespace Table

variable {f : String → String} {source source' : String}

/-- Two tables of renamed sources, or two errors that stand for each other, or two panics. -/
def OutcomesRenamed (f : String → String) (source source' : String) :
    Call (Except Error Table) → Call (Except Error Table) → Prop
  | .returns (.ok table), .returns (.ok table') =>
    table'.names = table.names.map f ∧ table'.rows = table.rows
  | .returns (.error error), .returns (.error error') => error.Renamed f source source' error'
  | .panics, .panics => True
  | _, _ => False

/-- With both sources read, the tables have the same rows, or the same is wrong with them. -/
theorem outcomesRenamed_of_alike (h : Renames f source source') {g g' : Formula} (limit : Nat)
    (hparse : (parse .empty source).1 = .ok g) (hparse' : (parse .empty source').1 = .ok g')
    (hg : g.Alike (Counterparts f source source') g') :
    OutcomesRenamed f source source' (build limit source) (build limit source') := by
  have hcount : (namesIn source').length = (namesIn source).length := by
    rw [h.namesIn_eq, List.length_map]
  rw [build_eq hparse, build_eq hparse', hcount]
  split
  · split
    · have hassignment := hg.firstAssignment?
      rw [Formula.tabulate, Formula.tabulate]
      generalize g.firstAssignment? = first at hassignment ⊢
      generalize g'.firstAssignment? = first' at hassignment ⊢
      cases hassignment with
      | none => exact ⟨h.namesIn_eq, h.rows_eq hg⟩
      | some hassign =>
        obtain ⟨t, t', ht, hstart, hstart'⟩ := hassign.exists_start
        simp only [hstart, hstart']
        exact .atToken ht.sameIndex (Or.inr rfl)
    · trivial
  · exact .tooMany _ _

theorem outcomesRenamed (h : Renames f source source') (limit : Nat) :
    OutcomesRenamed f source source' (build limit source) (build limit source') := by
  have hkind : ∀ t t', Counterparts f source source' t t' → t'.kind = t.kind :=
    fun _ _ ht => ht.kind_eq
  rcases parse_cases .empty source with ⟨⟨g, hparse⟩, -⟩ | ⟨i, hi, hparse⟩
  · obtain ⟨g', hparse', hg⟩ := parse_alike hkind h.counterparts hparse
    exact outcomesRenamed_of_alike h limit hparse hparse' hg
  · have hi' : FirstIllegal (tokens source') i := hi.alike hkind h.counterparts
    rcases parse_cases .empty source' with ⟨-, hlegal⟩ | ⟨j, hj, hparse'⟩
    · exact absurd (hlegal i hi'.le) hi'.illegal
    · rw [build_of_error hparse, build_of_error hparse', hj.unique hi']
      exact h.faultAt_renamed i

/-- Of two sources with the same tokens but for gaps and for names, which are renamed one to
one, both have a table or neither. The tables have the same rows, and the variables of the one
are those of the other, renamed, in the same order. The errors have the same cause, where an
unexpected name is renamed, and they stand at the start of tokens of the same index, or both
at the end, or have no place since the variables are too many. And if there is no room for the
rows of the one, there is none for those of the other. -/
theorem build_renamed (h : Renames f source source') (limit : Nat) :
    ((∃ table, build limit source = .returns (.ok table)) ↔
      ∃ table', build limit source' = .returns (.ok table')) ∧
    (build limit source = .panics ↔ build limit source' = .panics) ∧
    (∀ table table', build limit source = .returns (.ok table) →
      build limit source' = .returns (.ok table') →
      table'.names = table.names.map f ∧ table'.rows = table.rows) ∧
    ∀ error error', build limit source = .returns (.error error) →
      build limit source' = .returns (.error error') → error.Renamed f source source' error' := by
  have houtcomes := outcomesRenamed h limit
  generalize build limit source = built at houtcomes
  generalize build limit source' = built' at houtcomes
  -- Only equal constructors are related.
  unfold OutcomesRenamed at houtcomes
  split at houtcomes
  · next table table' =>
    refine ⟨⟨fun _ => ⟨table', rfl⟩, fun _ => ⟨table, rfl⟩⟩, ⟨nofun, nofun⟩, fun _ _ h h' => ?_,
      nofun⟩
    cases h
    cases h'
    exact houtcomes
  · refine ⟨⟨nofun, nofun⟩, ⟨nofun, nofun⟩, nofun, fun _ _ h h' => ?_⟩
    cases h
    cases h'
    exact houtcomes
  · exact ⟨⟨nofun, nofun⟩, ⟨fun _ => rfl, fun _ => rfl⟩, nofun, nofun⟩
  · exact houtcomes.elim

/-- A conjunction has the same rows under other names and with other gaps. -/
theorem build_renamed_conjunction :
    ∃ table table', build 63 "p∧ q" = .returns (.ok table) ∧
      build 63 "a ∧b" = .returns (.ok table') ∧
      table'.names = ["a", "b"] ∧ table'.rows = table.rows := by
  have htokens : tokens "p∧ q"
      = [⟨.identifier, "p", ⟨0, 1⟩⟩, ⟨.and, "∧", ⟨1, 4⟩⟩, ⟨.identifier, "q", ⟨5, 6⟩⟩] := by
    decide +kernel
  have htokens' : tokens "a ∧b"
      = [⟨.identifier, "a", ⟨0, 1⟩⟩, ⟨.and, "∧", ⟨2, 5⟩⟩, ⟨.identifier, "b", ⟨5, 6⟩⟩] := by
    decide +kernel
  have hrenames : Renames (fun name => if name = "p" then "a" else "b") "p∧ q" "a ∧b" := by
    refine ⟨?_, by decide +kernel⟩
    rw [htokens, htokens']
    exact .cons ⟨rfl, fun _ => rfl⟩ (.cons ⟨rfl, nofun⟩ (.cons ⟨rfl, fun _ => rfl⟩ .nil))
  have hbuild : build 63 "p∧ q" = .returns (.ok ⟨["p", "q"], "p∧ q", [⟨[true, true], true⟩,
      ⟨[true, false], false⟩, ⟨[false, true], false⟩, ⟨[false, false], false⟩]⟩) := by
    decide +kernel
  obtain ⟨hiff, -, hsame, -⟩ := build_renamed hrenames 63
  obtain ⟨table', hbuild'⟩ := hiff.1 ⟨_, hbuild⟩
  obtain ⟨hnames, hrows⟩ := hsame _ _ hbuild hbuild'
  exact ⟨_, table', hbuild, hbuild', hnames, hrows⟩

end Table

end TruthTable
