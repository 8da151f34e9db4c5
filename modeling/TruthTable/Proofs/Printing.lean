import TruthTable.Proofs.Names

/-!
# Printing and reading again

A formula is printed with one blank around connectives and `=`, and with no parentheses
but those of its groups. So what is printed says how the formula is grouped only if every
part may stand where it is written, that is, if the formula is canonical.

The text of a formula whose names are names falls into the lexemes of the formula
(`lexemesOf_print`): each part of it ends where no name goes on. The grammar then does the
rest, since it derives the well-formed formulas and those only.

Main statement: `parse_toString`, the canonical formulas are those that can be printed and
read again, and all that is read is canonical.
-/

namespace TruthTable

/-- A formula whose names are names is printed as its lexemes. -/
theorem Formula.lexemesOf_print (f : Formula) (hnames : ∀ name ∈ f.names, IsName name)
    {k : List Char} (hk : NameEnds k) : lexemesOf (f.print ++ k) = f.lexemes ++ lexemesOf k := by
  induction f generalizing k with
  -- A printed part ends before a blank, a parenthesis or the end, so no name runs on into what
  -- is printed after it.
  | atom name span => exact lexemesOf_name (hnames name (List.mem_singleton_self name)) hk
  | negation operand span ih =>
    have hglyph : Kind.tilde.glyph? = some '~' := rfl
    rw [print, List.cons_append, lexemesOf_glyph hglyph, ih hnames hk]
    rfl
  | binary c left right span ihLeft ihRight =>
    have hleft : ∀ name ∈ left.names, IsName name :=
      fun name hname => hnames name (List.mem_append_left _ hname)
    have hright : ∀ name ∈ right.names, IsName name :=
      fun name hname => hnames name (List.mem_append_right _ hname)
    have hblank : NameEnds (' ' :: c.glyph :: ' ' :: (right.print ++ k)) :=
      nameEnds_cons (by decide)
    have hprint : (binary c left right span).print ++ k
        = left.print ++ ' ' :: c.glyph :: ' ' :: (right.print ++ k) := by
      simp [print]
    rw [hprint, ihLeft hleft hblank, lexemesOf_gap (by decide), lexemesOf_glyph c.glyph?_kind,
      lexemesOf_gap (by decide), ihRight hright hk, lexemes, List.append_assoc]
    rfl
  | grouped inner span ih =>
    have hclose : NameEnds (')' :: k) := nameEnds_cons (by decide)
    have hopens : Kind.openParen.glyph? = some '(' := rfl
    have hcloses : Kind.closeParen.glyph? = some ')' := rfl
    have hprint : (grouped inner span).print ++ k = '(' :: (inner.print ++ ')' :: k) := by
      simp [print]
    rw [hprint, lexemesOf_glyph hopens, ih hnames hclose, lexemesOf_glyph hcloses, lexemes,
      List.cons_append, List.append_assoc]
    rfl
  | assignment target value span ihTarget ihValue =>
    have htarget : ∀ name ∈ target.names, IsName name :=
      fun name hname => hnames name (List.mem_append_left _ hname)
    have hvalue : ∀ name ∈ value.names, IsName name :=
      fun name hname => hnames name (List.mem_append_right _ hname)
    have hblank : NameEnds (' ' :: '=' :: ' ' :: (value.print ++ k)) := nameEnds_cons (by decide)
    have hglyph : Kind.assignment.glyph? = some '=' := rfl
    have hprint : (assignment target value span).print ++ k
        = target.print ++ ' ' :: '=' :: ' ' :: (value.print ++ k) := by
      simp [print]
    rw [hprint, ihTarget htarget hblank, lexemesOf_gap (by decide), lexemesOf_glyph hglyph,
      lexemesOf_gap (by decide), ihValue hvalue hk, lexemes, List.append_assoc]
    rfl

theorem Formula.toList_toString (f : Formula) : (toString f).toList = f.print :=
  String.toList_ofList

theorem Formula.toString_eq_of_bare_eq {f g : Formula} (h : f.bare = g.bare) :
    toString f = toString g := by
  apply String.toList_inj.1
  rw [toList_toString, toList_toString, ← print_bare, h, print_bare]

/-- The tokens of a canonical formula that is printed. -/
theorem Formula.Canonical.map_lexeme_tokens {f : Formula} (h : f.Canonical) :
    (tokens (toString f)).map Token.lexeme = f.lexemes := by
  have hprint := f.lexemesOf_print h.2 nameEnds_nil
  rwa [List.append_nil, lexemesOf_nil, List.append_nil, ← toList_toString,
    ← TruthTable.map_lexeme_tokens] at hprint

/-- A canonical formula that is printed is read again, with its names in their order. -/
theorem Formula.Canonical.exists_parse {e : Formula} (h : e.Canonical) (vs : Variables) :
    ∃ f, parse vs (toString e) = (.ok f, ⟨firstNames e.lexemes⟩) ∧ f.bare = e.bare := by
  have hderives : Derives .assignment ((tokens (toString e)).map Token.lexeme) e :=
    derives_iff.2 ⟨h.1, h.map_lexeme_tokens.symm⟩
  obtain ⟨f, hparse, hbare⟩ := hderives.exists_parse vs
  refine ⟨f, ?_, hbare⟩
  rw [hparse, Variables.clear, Variables.empty_noteAll, h.map_lexeme_tokens]

/-- The names of proper tokens are names. -/
theorem isName_of_mem_names {ts : List Token} (hproper : ∀ t ∈ ts, t.Proper) {name : String}
    (h : name ∈ Lexeme.names (ts.map Token.lexeme)) : IsName name := by
  rw [Lexeme.names, List.mem_map] at h
  obtain ⟨x, hx, rfl⟩ := h
  rw [List.mem_filter, decide_eq_true_eq] at hx
  obtain ⟨t, ht, rfl⟩ := List.mem_map.1 hx.1
  exact (hproper t ht).isName hx.2

/-- What is read is canonical. -/
theorem canonical_of_parse {vs : Variables} {source : String} {f : Formula}
    (h : (parse vs source).1 = .ok f) : f.Canonical := by
  obtain ⟨hwell, hlex⟩ := derives_iff.1 (derives_of_parse h)
  refine ⟨hwell, fun name hname => ?_⟩
  rw [f.names_eq, hlex] at hname
  exact isName_of_mem_names (fun t ht => proper_of_mem_tokens ht) hname

/-- Printing a formula and reading the text again loses nothing exactly if the formula is
canonical, which is to say that it comes from reading. For a source that reads, the printed
formula reads as the same formula with the same variables, and is printed the same again. -/
theorem parse_toString :
    (∀ (vs : Variables) (e : Formula),
      e.Canonical ↔ ∃ f, (parse vs (toString e)).1 = .ok f ∧ f.bare = e.bare) ∧
    (∀ (vs : Variables) (source : String) (f : Formula),
      (parse vs source).1 = .ok f → f.Canonical) ∧
    (∀ (vs : Variables) (e : Formula),
      e.Canonical ↔ ∃ source f, (parse vs source).1 = .ok f ∧ f.bare = e.bare) ∧
    ∀ (vs vs' ws : Variables) (source : String) (f : Formula), parse vs source = (.ok f, vs') →
      ∃ g, parse ws (toString f) = (.ok g, vs') ∧ g.bare = f.bare ∧ toString g = toString f := by
  have hcongr : ∀ {f e : Formula}, f.bare = e.bare → f.Canonical → e.Canonical := by
    intro f e hbare hf
    rwa [← Formula.canonical_bare, ← hbare, Formula.canonical_bare]
  refine ⟨fun vs e => ⟨?_, ?_⟩, fun vs source f h => canonical_of_parse h,
    fun vs e => ⟨?_, ?_⟩, ?_⟩
  · intro h
    obtain ⟨f, hparse, hbare⟩ := h.exists_parse vs
    exact ⟨f, congrArg Prod.fst hparse, hbare⟩
  · intro h
    obtain ⟨f, hparse, hbare⟩ := h
    exact hcongr hbare (canonical_of_parse hparse)
  · intro h
    obtain ⟨f, hparse, hbare⟩ := h.exists_parse vs
    exact ⟨toString e, f, congrArg Prod.fst hparse, hbare⟩
  · intro h
    obtain ⟨source, f, hparse, hbare⟩ := h
    exact hcongr hbare (canonical_of_parse hparse)
  · intro vs vs' ws source f hparse
    have hok : (parse vs source).1 = .ok f := congrArg Prod.fst hparse
    obtain ⟨g, hagain, hbare⟩ := (canonical_of_parse hok).exists_parse ws
    rw [← namesIn_eq hok, ← seen_eq_namesIn hparse] at hagain
    exact ⟨g, hagain, hbare, Formula.toString_eq_of_bare_eq hbare⟩

/-- A negated group is printed with its parentheses and read again. -/
theorem parse_negated_group :
    ∃ f, (parse .empty "~(p ⇒ q)").1 = .ok f ∧ toString f = "~(p ⇒ q)" := by
  have hexists : ∃ e : Formula, toString e = "~(p ⇒ q)" ∧ e.Canonical := by
    refine ⟨.negation (.grouped (.binary .implies (.atom "p" ⟨0, 0⟩) (.atom "q" ⟨0, 0⟩) ⟨0, 0⟩)
      ⟨0, 0⟩) ⟨0, 0⟩, by decide +kernel, ⟨rfl, rfl, rfl, trivial, trivial⟩, ?_⟩
    show ∀ name ∈ ["p", "q"], IsName name
    simp [IsName, reserved]
  obtain ⟨e, hprint, hcanonical⟩ := hexists
  obtain ⟨f, hparse, hbare⟩ := (parse_toString.1 .empty e).1 hcanonical
  rw [hprint] at hparse
  exact ⟨f, hparse, (Formula.toString_eq_of_bare_eq hbare).trans hprint⟩

end TruthTable
