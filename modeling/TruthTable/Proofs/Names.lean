import TruthTable.Proofs.Grammar

/-!
# The names that tokens register

Registering the names of tokens one after the other leaves each name once, where it
occurs first. `firstNames` says so of the lexemes alone, so what is registered does not
depend on where the tokens stand.
-/

namespace TruthTable

/-- The names among the lexemes, each where it occurs first. -/
def firstNames (xs : List Lexeme) : List String := (Lexeme.names xs).eraseDups

namespace Variables

theorem nodup_note {vs : Variables} (h : vs.names.Nodup) (t : Token) : (vs.note t).names.Nodup := by
  unfold note
  split
  · exact nodup_register h t.text
  · exact h

theorem nodup_noteAll {vs : Variables} (h : vs.names.Nodup) (ts : List Token) :
    (vs.noteAll ts).names.Nodup := by
  induction ts generalizing vs with
  | nil => exact h
  | cons t ts ih => exact ih (nodup_note h t)

/-- A name that is there already is not registered again. -/
theorem register_of_mem {vs : Variables} {name : String} (h : name ∈ vs.names) :
    (vs.register name).2 = vs := by
  unfold register
  split
  · rfl
  · next hnone => exact absurd h (slot?_eq_none_iff.1 hnone)

/-- A token that has been read leaves the names of before, and its own if it is a name. -/
theorem subset_note (vs : Variables) (t : Token) : vs.names ⊆ (vs.note t).names := by
  unfold note
  split
  · exact (prefix_register vs t.text).subset
  · exact List.Subset.refl _

theorem text_mem_note (vs : Variables) {t : Token} (hkind : t.kind = .identifier) :
    t.text ∈ (vs.note t).names := by
  rw [note, if_pos hkind, register]
  split
  · next slot hslot =>
    refine Decidable.byContradiction fun hnot => ?_
    cases hslot.symm.trans (slot?_eq_none_iff.2 hnot)
  · exact List.mem_append_right _ (List.mem_singleton_self _)

theorem subset_noteAll (vs : Variables) (ts : List Token) : vs.names ⊆ (vs.noteAll ts).names := by
  induction ts generalizing vs with
  | nil => exact List.Subset.refl _
  | cons t ts ih => exact List.Subset.trans (vs.subset_note t) (ih (vs.note t))

theorem text_mem_noteAll (vs : Variables) {ts : List Token} {t : Token} (ht : t ∈ ts)
    (hkind : t.kind = .identifier) : t.text ∈ (vs.noteAll ts).names := by
  induction ts generalizing vs with
  | nil => cases ht
  | cons u ts ih =>
    rcases List.mem_cons.1 ht with rfl | ht
    · exact subset_noteAll _ ts (vs.text_mem_note hkind)
    · exact ih (vs.note u) ht

/-- A token that has been read before leaves the variables as they are. -/
theorem note_noteAll_of_mem (vs : Variables) {ts : List Token} {t : Token} (ht : t ∈ ts) :
    (vs.noteAll ts).note t = vs.noteAll ts := by
  rw [note]
  split
  · next hkind => exact register_of_mem (vs.text_mem_noteAll ht hkind)
  · rfl

/-- A name is added to those of a text by writing it at the end of the text. -/
theorem register_eraseDups (xs : List String) (name : String) :
    ((⟨xs.eraseDups⟩ : Variables).register name).2 = ⟨(xs ++ [name]).eraseDups⟩ := by
  rw [register, List.eraseDups_append]
  split
  · next slot hslot =>
    have hmem : name ∈ xs := by
      rw [← List.mem_eraseDups]
      refine Decidable.byContradiction fun hnot => ?_
      have hnone : (⟨xs.eraseDups⟩ : Variables).slot? name = none := slot?_eq_none_iff.2 hnot
      rw [hnone] at hslot
      cases hslot
    have hremove : [name].removeAll xs = [] := by simp [List.removeAll, hmem]
    rw [hremove, List.eraseDups_nil, List.append_nil]
  · next hnone =>
    have hmem : name ∉ xs := fun h => slot?_eq_none_iff.1 hnone (List.mem_eraseDups.2 h)
    have hremove : [name].removeAll xs = [name] := by simp [List.removeAll, hmem]
    rw [hremove]
    rfl

/-- Tokens add their names to those that a text has registered. -/
theorem noteAll_eraseDups (xs : List String) (ts : List Token) :
    (⟨xs.eraseDups⟩ : Variables).noteAll ts
      = ⟨(xs ++ Lexeme.names (ts.map Token.lexeme)).eraseDups⟩ := by
  induction ts generalizing xs with
  | nil => rw [noteAll_nil, List.map_nil, Lexeme.names_nil, List.append_nil]
  | cons t ts ih =>
    rw [noteAll_cons, List.map_cons, note]
    by_cases hkind : t.kind = .identifier
    · rw [if_pos hkind, register_eraseDups, ih, Token.lexeme_eq_name hkind,
        Lexeme.names_cons_name, List.append_assoc, List.singleton_append]
    · rw [if_neg hkind, ih, Lexeme.names_cons_of_ne hkind]

/-- The names registered from nothing are the first occurrences of names. -/
theorem empty_noteAll (ts : List Token) :
    empty.noteAll ts = ⟨firstNames (ts.map Token.lexeme)⟩ :=
  noteAll_eraseDups [] ts

end Variables

/-! ## The names of a source -/

/-- The names in a source, each where it occurs first. -/
def namesIn (source : String) : List String := firstNames ((tokens source).map Token.lexeme)

theorem nodup_namesIn (source : String) : (namesIn source).Nodup := by
  have hempty : Variables.empty.names.Nodup := List.nodup_nil
  have hnodup := Variables.nodup_noteAll hempty (tokens source)
  rwa [Variables.empty_noteAll] at hnodup

variable {vs : Variables} {source : String} {f : Formula}

/-- The variables of a source that is read are its names. -/
theorem seen_eq_namesIn {vs' : Variables} (h : parse vs source = (.ok f, vs')) :
    vs' = ⟨namesIn source⟩ := by
  rw [seen_of_parse h, Variables.clear, Variables.empty_noteAll]
  rfl

/-- The names of a source that is read are those in the formula. -/
theorem namesIn_eq (h : (parse vs source).1 = .ok f) : namesIn source = firstNames f.lexemes := by
  obtain ⟨-, hlex⟩ := derives_iff.1 (derives_of_parse h)
  rw [namesIn, hlex]

theorem mem_namesIn (h : (parse vs source).1 = .ok f) {name : String} :
    name ∈ namesIn source ↔ name ∈ f.names := by
  rw [namesIn_eq h, firstNames, List.mem_eraseDups, f.names_eq]

/-- A source that is read has a name in it. -/
theorem namesIn_ne_nil (h : (parse vs source).1 = .ok f) : namesIn source ≠ [] := by
  intro hnil
  obtain ⟨name, hname⟩ := List.exists_mem_of_ne_nil _ f.names_ne_nil
  have hmem := (mem_namesIn h).2 hname
  rw [hnil] at hmem
  cases hmem

end TruthTable
