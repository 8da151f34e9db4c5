import TruthTable.Proofs.Table

/-!
# Substitution in a text and in a valuation

A name in a source can be replaced by another source in parentheses (`substitute`), and a
name in a formula by the group of another formula (`Formula.substitute`). The two agree,
because a parenthesis belongs to no name: the text falls into the lexemes of the source with
those of the inserted sources in their places (`lexemesOf_substitute`), and these are the
lexemes of the formula after substitution (`Formula.lexemes_substitute`). A group can stand
wherever a name can but before `=`, so the formula stays well formed as long as it has no
assignment in it, and the grammar leaves no other way to read the text.

That a formula after substitution is true says that the formula is true where each name has
the truth of what replaces it (`Formula.holds_substitute`).

Main statement: `valueOf_substitute`.
-/

namespace TruthTable

/-! ## In a text -/

/-- What a token is replaced by: a name by the text that `F` has for it, in parentheses. -/
def Token.replacement (F : String → String) (t : Token) : List Char :=
  if t.kind = .identifier then '(' :: ((F t.text).toList ++ [')']) else t.text.toList

/-- The rest of the text with every name in it replaced. -/
def TokenStream.substitute (F : String → String) (s : TokenStream) : List Char :=
  match h : s.next? with
  | none => s.rest
  | some (t, s') =>
    have := next?_rest_length_lt h
    s.rest.takeWhile isGap ++ t.replacement F ++ s'.substitute F
termination_by s.rest.length

/-- The source with `(F x)` in place of every name `x` in it. -/
def substitute (F : String → String) (source : String) : String :=
  String.ofList ((TokenStream.start source).substitute F)

namespace TokenStream

variable (F : String → String)

theorem substitute_of_next?_eq_none {s : TokenStream} (h : s.next? = none) :
    s.substitute F = s.rest := by
  rw [substitute]
  split
  · rfl
  · next h' => rw [h] at h'; cases h'

theorem substitute_of_next?_eq_some {s s' : TokenStream} {t : Token}
    (h : s.next? = some (t, s')) :
    s.substitute F = s.rest.takeWhile isGap ++ t.replacement F ++ s'.substitute F := by
  rw [substitute]
  split
  · next h' => rw [h] at h'; cases h'
  · next h' => rw [h] at h'; cases h'; rfl

variable (source : String) (offset : Nat)

theorem substitute_nil : (⟨source, offset, []⟩ : TokenStream).substitute F = [] :=
  substitute_of_next?_eq_none F rfl

/-- A gap character stays. -/
theorem substitute_gap {c : Char} (h : isGap c = true) (cs : List Char) :
    (⟨source, offset, c :: cs⟩ : TokenStream).substitute F
      = c :: (⟨source, offset + c.utf8Size, cs⟩ : TokenStream).substitute F := by
  have hnext := next?_gap source offset h cs
  cases hstep : (⟨source, offset + c.utf8Size, cs⟩ : TokenStream).next? with
  | none =>
    rw [substitute_of_next?_eq_none F hstep, substitute_of_next?_eq_none F (hnext.trans hstep)]
  | some step =>
    rw [substitute_of_next?_eq_some F hstep, substitute_of_next?_eq_some F (hnext.trans hstep),
      List.takeWhile_cons_of_pos h]
    rfl

/-- A glyph stays. -/
theorem substitute_glyph {kind : Kind} {c : Char} (h : kind.glyph? = some c) (cs : List Char) :
    (⟨source, offset, c :: cs⟩ : TokenStream).substitute F
      = c :: (⟨source, offset + c.utf8Size, cs⟩ : TokenStream).substitute F := by
  have hkind := Kind.ne_identifier_of_glyph? h
  have hgap : ¬isGap c = true := by simp [isGap_of_glyph? h]
  rw [substitute_of_next?_eq_some F (next?_glyph source offset h cs),
    List.takeWhile_cons_of_neg hgap, Token.replacement, if_neg hkind, String.toList_ofList]
  rfl

/-- A name goes, and a group comes in its place. -/
theorem substitute_name {name : String} (h : IsName name) {k : List Char} (hk : NameEnds k) :
    (⟨source, offset, name.toList ++ k⟩ : TokenStream).substitute F
      = '(' :: ((F name).toList ++ ')' ::
        (⟨source, offset + Text.utf8Length name.toList, k⟩ : TokenStream).substitute F) := by
  obtain ⟨hne, hchars⟩ := h.toList
  obtain ⟨c, cs, hname⟩ := List.exists_cons_of_ne_nil hne
  have hgap : ¬isGap c = true := by
    simp [isGap_of_isNameChar (hchars c (by rw [hname]; exact List.mem_cons_self))]
  have hnone : (name.toList ++ k).takeWhile isGap = [] := by
    rw [hname, List.cons_append, List.takeWhile_cons_of_neg hgap]
  rw [substitute_of_next?_eq_some F (next?_name source offset hne hchars hk), hnone,
    Token.replacement, if_pos rfl, String.ofList_toList]
  simp

end TokenStream

/-- The lexemes that a lexeme is replaced by: a name by those that `L` has for it, between
parentheses. -/
def Lexeme.replacement (L : String → List Lexeme) (x : Lexeme) : List Lexeme :=
  if x.1 = .identifier then .sign .openParen :: (L x.2 ++ [.sign .closeParen]) else [x]

theorem Lexeme.flatMap_replacement_name (L : String → List Lexeme) (text : String)
    (xs : List Lexeme) :
    (Lexeme.name text :: xs).flatMap (replacement L)
      = .sign .openParen :: (L text ++ .sign .closeParen :: xs.flatMap (replacement L)) := by
  simp [replacement, name]

theorem Lexeme.flatMap_replacement_sign (L : String → List Lexeme) {kind : Kind}
    (h : kind ≠ .identifier) (xs : List Lexeme) :
    (Lexeme.sign kind :: xs).flatMap (replacement L)
      = .sign kind :: xs.flatMap (replacement L) := by
  have hkind : ¬(sign kind).1 = .identifier := h
  rw [List.flatMap_cons, replacement, if_neg hkind, List.singleton_append]

/-- No name runs into a parenthesis, so a group falls into the lexemes of what it holds. -/
theorem lexemesOf_group (text k : List Char) :
    lexemesOf ('(' :: (text ++ ')' :: k))
      = .sign .openParen :: (lexemesOf text ++ .sign .closeParen :: lexemesOf k) := by
  have hopens : Kind.openParen.glyph? = some '(' := rfl
  have hcloses : Kind.closeParen.glyph? = some ')' := rfl
  have hends : NameEnds (')' :: k) := nameEnds_cons (by decide)
  rw [lexemesOf_glyph hopens, lexemesOf_append text hends, lexemesOf_glyph hcloses]

/-- A text after substitution falls into the lexemes of the text after replacement. -/
theorem lexemesOf_substitute (F : String → String) (source : String) (text : List Char) :
    ∀ offset, lexemesOf ((⟨source, offset, text⟩ : TokenStream).substitute F)
      = (lexemesOf text).flatMap (Lexeme.replacement fun x => lexemesOf (F x).toList) := by
  induction text using textInduction with
  | nil =>
    intro offset
    rw [TokenStream.substitute_nil, lexemesOf_nil]
    rfl
  | gap c cs hgap ih =>
    intro offset
    rw [TokenStream.substitute_gap F source offset hgap, lexemesOf_gap hgap, lexemesOf_gap hgap, ih]
  | glyph kind c cs hglyph ih =>
    intro offset
    have hkind := Kind.ne_identifier_of_glyph? hglyph
    rw [TokenStream.substitute_glyph F source offset hglyph, lexemesOf_glyph hglyph,
      lexemesOf_glyph hglyph, ih, Lexeme.flatMap_replacement_sign _ hkind]
  | name name cs hne hname hends ih =>
    intro offset
    have hisName : IsName (String.ofList name) := isName_ofList hne hname
    rw [← String.toList_ofList (l := name), TokenStream.substitute_name F source offset hisName hends,
      lexemesOf_group, ih, lexemesOf_name hisName hends, Lexeme.flatMap_replacement_name]

/-! ## In a formula -/

namespace Formula

/-- The formula with the group of `g x` in place of every name `x`. -/
def substitute (g : String → Formula) : Formula → Formula
  | atom name span => grouped (g name) span
  | negation operand span => negation (operand.substitute g) span
  | binary c left right span => binary c (left.substitute g) (right.substitute g) span
  | grouped inner span => grouped (inner.substitute g) span
  | assignment target value span => assignment (target.substitute g) (value.substitute g) span

variable {g : String → Formula}

theorem lexemes_substitute {L : String → List Lexeme} {f : Formula}
    (h : ∀ name ∈ f.names, (g name).lexemes = L name) :
    (f.substitute g).lexemes = f.lexemes.flatMap (Lexeme.replacement L) := by
  induction f with
  | atom name span =>
    have hname := h name (List.mem_singleton_self name)
    rw [lexemes, Lexeme.flatMap_replacement_name, ← hname]
    rfl
  | negation operand span ih =>
    rw [lexemes, Lexeme.flatMap_replacement_sign L (by decide), ← ih h]
    rfl
  | binary c left right span ihLeft ihRight =>
    rw [lexemes, List.flatMap_append, Lexeme.flatMap_replacement_sign L c.kind_ne_identifier,
      ← ihLeft fun name hname => h name (List.mem_append_left _ hname),
      ← ihRight fun name hname => h name (List.mem_append_right _ hname)]
    rfl
  | grouped inner span ih =>
    rw [lexemes, Lexeme.flatMap_replacement_sign L (by decide), List.flatMap_append,
      Lexeme.flatMap_replacement_sign L (by decide), ← ih h]
    rfl
  | assignment target value span ihTarget ihValue =>
    rw [lexemes, List.flatMap_append, Lexeme.flatMap_replacement_sign L (by decide),
      ← ihTarget fun name hname => h name (List.mem_append_left _ hname),
      ← ihValue fun name hname => h name (List.mem_append_right _ hname)]
    rfl

theorem isOperand_substitute (f : Formula) : (f.substitute g).isOperand = f.isOperand := by
  cases f <;> rfl

theorem isAssignment_substitute (f : Formula) :
    (f.substitute g).isAssignment = f.isAssignment := by
  cases f <;> rfl

theorem firstAssignment?_substitute {f : Formula} (hnone : f.firstAssignment? = none)
    (h : ∀ name ∈ f.names, (g name).firstAssignment? = none) :
    (f.substitute g).firstAssignment? = none := by
  induction f with
  | atom name span => exact h name (List.mem_singleton_self name)
  | negation operand span ih => exact ih hnone h
  | binary c left right span ihLeft ihRight =>
    rw [firstAssignment?_binary, Option.or_eq_none_iff] at hnone
    rw [substitute, firstAssignment?_binary, Option.or_eq_none_iff]
    exact ⟨ihLeft hnone.1 fun name hname => h name (List.mem_append_left _ hname),
      ihRight hnone.2 fun name hname => h name (List.mem_append_right _ hname)⟩
  | grouped inner span ih => exact ih hnone h
  | assignment target value span _ _ => cases hnone

/-- A group can stand wherever a name can, but for what is assigned to. -/
theorem WellFormed.substitute {f : Formula} (hf : f.WellFormed) (hnone : f.firstAssignment? = none)
    (h : ∀ name ∈ f.names, (g name).WellFormed) : (f.substitute g).WellFormed := by
  induction f with
  | atom name span => exact h name (List.mem_singleton_self name)
  | negation operand span ih => exact ⟨(isOperand_substitute operand).trans hf.1, ih hf.2 hnone h⟩
  | binary c left right span ihLeft ihRight =>
    rw [firstAssignment?_binary, Option.or_eq_none_iff] at hnone
    obtain ⟨hassign, hoperand, hleft, hright⟩ := hf
    exact ⟨(isAssignment_substitute left).trans hassign,
      (isOperand_substitute right).trans hoperand,
      ihLeft hleft hnone.1 fun name hname => h name (List.mem_append_left _ hname),
      ihRight hright hnone.2 fun name hname => h name (List.mem_append_right _ hname)⟩
  | grouped inner span ih => exact ih hf hnone h
  | assignment target value span _ _ => cases hnone

/-- A formula after substitution is true where the formula is true of what replaces its names. -/
theorem holds_substitute (f : Formula) (ρ : String → Bool) :
    (f.substitute g).Holds ρ ↔ f.Holds fun name => decide ((g name).Holds ρ) := by
  induction f with
  | atom name span => exact decide_eq_true_iff.symm
  | negation operand span ih => exact not_congr ih
  | binary c left right span ihLeft ihRight => exact c.joins_congr ihLeft ihRight
  | grouped inner span ih => exact ih
  | assignment target value span _ _ => exact Iff.rfl

theorem mem_names_substitute {f : Formula} {name : String} :
    name ∈ (f.substitute g).names ↔ ∃ x ∈ f.names, name ∈ (g x).names := by
  induction f with
  | atom x span => simp [names, substitute]
  | negation operand span ih => exact ih
  | binary c left right span ihLeft ihRight =>
    simp only [names, substitute, List.mem_append, ihLeft, ihRight, or_and_right, exists_or]
  | grouped inner span ih => exact ih
  | assignment target value span ihTarget ihValue =>
    simp only [names, substitute, List.mem_append, ihTarget, ihValue, or_and_right, exists_or]

end Formula

/-! ## Sources and their formulas -/

/-- The source holds a formula without assignments. -/
def IsProposition (source : String) : Prop :=
  ∃ f, (parse .empty source).1 = .ok f ∧ f.firstAssignment? = none

/-- The variables of the formula that a source holds. -/
def variablesOf (source : String) : List String := (parse .empty source).2.names

/-- The truth value of the formula that a source holds, where the names have the values `ρ`. -/
def valueOf (source : String) (ρ : String → Bool) : Except Error Bool :=
  match parse .empty source with
  | (.ok f, vs) => f.evaluate vs (vs.names.map ρ)
  | (.error error, _) => .error error

/-- The source is written with the lexemes of a formula that has a truth value. -/
structure Says (source : String) (f : Formula) : Prop where
  wellFormed : f.WellFormed
  lexemes_eq : lexemesOf source.toList = f.lexemes
  no_assignment : f.firstAssignment? = none

theorem IsProposition.exists_formula {source : String} (h : IsProposition source) :
    ∃ f, Says source f := by
  obtain ⟨f, hparse, hnone⟩ := h
  obtain ⟨hwell, hlex⟩ := derives_iff.1 (derives_of_parse hparse)
  exact ⟨f, hwell, (map_lexeme_tokens source).symm.trans hlex.symm, hnone⟩

namespace Says

variable {source : String} {f : Formula}

/-- Such a source reads as the formula, but for the places of its parts. -/
theorem exists_parse (h : Says source f) :
    ∃ e, parse .empty source = (.ok e, ⟨firstNames f.lexemes⟩) ∧ e.bare = f.bare ∧
      e.firstAssignment? = none := by
  have hlex : (tokens source).map Token.lexeme = f.lexemes :=
    (map_lexeme_tokens source).trans h.lexemes_eq
  obtain ⟨e, hparse, hbare⟩ := (derives_iff.2 ⟨h.wellFormed, hlex.symm⟩).exists_parse .empty
  refine ⟨e, ?_, hbare, ?_⟩
  · rw [hparse, Variables.clear, Variables.empty_noteAll, hlex]
  · have hnone : e.bare.firstAssignment? = none := by
      rw [hbare, Formula.firstAssignment?_bare, h.no_assignment, Option.map_none]
    rwa [Formula.firstAssignment?_bare, Option.map_eq_none_iff] at hnone

theorem isProposition (h : Says source f) : IsProposition source := by
  obtain ⟨e, hparse, -, hnone⟩ := h.exists_parse
  exact ⟨e, congrArg Prod.fst hparse, hnone⟩

theorem variablesOf_eq (h : Says source f) : variablesOf source = f.names.eraseDups := by
  obtain ⟨e, hparse, -⟩ := h.exists_parse
  rw [variablesOf, hparse, f.names_eq]
  rfl

theorem mem_variablesOf (h : Says source f) {name : String} :
    name ∈ variablesOf source ↔ name ∈ f.names := by
  rw [h.variablesOf_eq, List.mem_eraseDups]

theorem valueOf_eq (h : Says source f) (ρ : String → Bool) :
    valueOf source ρ = .ok (decide (f.Holds ρ)) := by
  obtain ⟨e, hparse, hbare, hnone⟩ := h.exists_parse
  have hnames : ∀ name ∈ e.names, name ∈ (⟨firstNames f.lexemes⟩ : Variables).names := by
    intro name hname
    rw [← Formula.names_bare, hbare, Formula.names_bare, f.names_eq] at hname
    exact List.mem_eraseDups.2 hname
  have hholds : e.Holds ρ ↔ f.Holds ρ := by rw [← Formula.holds_bare, hbare, Formula.holds_bare]
  rw [valueOf, hparse]
  show e.evaluate ⟨firstNames f.lexemes⟩ _ = _
  rw [Formula.evaluate_map hnames, hnone]
  exact congrArg Except.ok (decide_eq_decide.2 hholds)

/-- The results of the table depend on the names and the truth of the formula only. -/
theorem map_results_build (h : Says source f) (limit : Nat) :
    (Table.build limit source).map (·.map Table.results) =
      if (variablesOf source).length ≤ min limit 63 then
        if (variablesOf source).length ≤ 58 then
          .returns (.ok ((valuationsOf (variablesOf source).length).map fun v =>
            decide (f.Holds (Variables.lookup ⟨variablesOf source⟩ v))))
        else
          .panics
      else
        .returns (.error ⟨.tooManyVariables (variablesOf source).length (min limit 63), 0⟩) := by
  obtain ⟨e, hparse, hbare, hnone⟩ := h.exists_parse
  have hok : (parse .empty source).1 = .ok e := congrArg Prod.fst hparse
  have hvariables : namesIn source = variablesOf source := by
    rw [variablesOf, hparse, seen_eq_namesIn hparse]
  rw [Table.build_eq hok, hvariables]
  split
  · split
    · rw [Formula.tabulate, hnone]
      refine congrArg (fun results => Call.returns (Except.ok results)) ?_
      rw [Table.results, Formula.table, Formula.rows, List.map_map]
      refine List.map_congr_left fun v _ => decide_eq_decide.2 ?_
      rw [← Formula.holds_bare, hbare, Formula.holds_bare]
    · rfl
  · rfl

/-- With every name replaced by a source, a source says the formula with every name replaced by
the formula of that source. -/
theorem substitute (h : Says source f) {F : String → String} {g : String → Formula}
    (hF : ∀ name ∈ f.names, Says (F name) (g name)) :
    Says (TruthTable.substitute F source) (f.substitute g) where
  wellFormed := h.wellFormed.substitute h.no_assignment fun name hname => (hF name hname).wellFormed
  lexemes_eq := by
    rw [Formula.lexemes_substitute fun name hname => (hF name hname).lexemes_eq.symm, ← h.lexemes_eq,
      TruthTable.substitute, String.toList_ofList]
    exact lexemesOf_substitute F source source.toList 0
  no_assignment :=
    Formula.firstAssignment?_substitute h.no_assignment fun name hname => (hF name hname).no_assignment

end Says

/-! ## Groups of whole sources -/

namespace Says

variable {source source' : String} {f f' : Formula}

theorem group (h : Says source f) (span : Span) : Says ("(" ++ source ++ ")") (.grouped f span) where
  wellFormed := h.wellFormed
  lexemes_eq := by
    have htext : ("(" ++ source ++ ")").toList = '(' :: (source.toList ++ ')' :: []) := by simp
    rw [htext, lexemesOf_group, h.lexemes_eq, lexemesOf_nil]
    rfl
  no_assignment := h.no_assignment

theorem negatedGroup (h : Says source f) (span : Span) :
    Says ("~(" ++ source ++ ")") (.negation (.grouped f span) span) where
  wellFormed := ⟨rfl, h.wellFormed⟩
  lexemes_eq := by
    have hglyph : Kind.tilde.glyph? = some '~' := rfl
    have htext : ("~(" ++ source ++ ")").toList = '~' :: '(' :: (source.toList ++ ')' :: []) := by
      simp
    rw [htext, lexemesOf_glyph hglyph, lexemesOf_group, h.lexemes_eq, lexemesOf_nil]
    rfl
  no_assignment := h.no_assignment

theorem joinedGroups (h : Says source f) (h' : Says source' f') (c : Connective) (span : Span) :
    Says ("(" ++ source ++ ") " ++ String.singleton c.glyph ++ " (" ++ source' ++ ")")
      (.binary c (.grouped f span) (.grouped f' span) span) where
  wellFormed := ⟨rfl, rfl, h.wellFormed, h'.wellFormed⟩
  lexemes_eq := by
    have htext : ("(" ++ source ++ ") " ++ String.singleton c.glyph ++ " (" ++ source' ++ ")").toList
        = '(' :: (source.toList ++ ')' ::
          ' ' :: c.glyph :: ' ' :: '(' :: (source'.toList ++ ')' :: [])) := by
      simp
    rw [htext, lexemesOf_group, lexemesOf_gap (by decide), lexemesOf_glyph c.glyph?_kind,
      lexemesOf_gap (by decide), lexemesOf_group, h.lexemes_eq, h'.lexemes_eq, lexemesOf_nil]
    simp [Formula.lexemes]
  no_assignment := by
    rw [Formula.firstAssignment?_binary, Option.or_eq_none_iff]
    exact ⟨h.no_assignment, h'.no_assignment⟩

end Says

/-! ## The two substitutions agree -/

section

variable {e e' : String}

theorem variablesOf_group (h : IsProposition e) : variablesOf ("(" ++ e ++ ")") = variablesOf e := by
  obtain ⟨f, hf⟩ := h.exists_formula
  rw [(hf.group ⟨0, 0⟩).variablesOf_eq, hf.variablesOf_eq]
  rfl

theorem variablesOf_negatedGroup (h : IsProposition e) :
    variablesOf ("~(" ++ e ++ ")") = variablesOf e := by
  obtain ⟨f, hf⟩ := h.exists_formula
  rw [(hf.negatedGroup ⟨0, 0⟩).variablesOf_eq, hf.variablesOf_eq]
  rfl

/-- A group has the truth value of what it holds. -/
theorem valueOf_group (h : IsProposition e) (ρ : String → Bool) :
    valueOf ("(" ++ e ++ ")") ρ = valueOf e ρ := by
  obtain ⟨f, hf⟩ := h.exists_formula
  rw [(hf.group ⟨0, 0⟩).valueOf_eq, hf.valueOf_eq]
  rfl

theorem valueOf_negatedGroup (h : IsProposition e) (ρ : String → Bool) :
    valueOf ("~(" ++ e ++ ")") ρ = (valueOf e ρ).map (!·) := by
  obtain ⟨f, hf⟩ := h.exists_formula
  rw [(hf.negatedGroup ⟨0, 0⟩).valueOf_eq, hf.valueOf_eq]
  exact congrArg Except.ok decide_not

theorem valueOf_joinedGroups (h : IsProposition e) (h' : IsProposition e') (c : Connective)
    (ρ : String → Bool) :
    valueOf ("(" ++ e ++ ") " ++ String.singleton c.glyph ++ " (" ++ e' ++ ")") ρ
      = do return c.apply (← valueOf e ρ) (← valueOf e' ρ) := by
  obtain ⟨f, hf⟩ := h.exists_formula
  obtain ⟨f', hf'⟩ := h'.exists_formula
  rw [(hf.joinedGroups hf' c ⟨0, 0⟩).valueOf_eq, hf.valueOf_eq, hf'.valueOf_eq]
  exact congrArg Except.ok (c.apply_decide _ _).symm

/-- A group has the results of what it holds. -/
theorem results_group (h : IsProposition e) (limit : Nat) :
    (Table.build limit ("(" ++ e ++ ")")).map (·.map Table.results)
      = (Table.build limit e).map (·.map Table.results) := by
  obtain ⟨f, hf⟩ := h.exists_formula
  rw [(hf.group ⟨0, 0⟩).map_results_build, hf.map_results_build, variablesOf_group h]
  rfl

theorem results_negatedGroup (h : IsProposition e) (limit : Nat) :
    (Table.build limit ("~(" ++ e ++ ")")).map (·.map Table.results)
      = ((Table.build limit e).map (·.map Table.results)).map (·.map (List.map (!·))) := by
  obtain ⟨f, hf⟩ := h.exists_formula
  rw [(hf.negatedGroup ⟨0, 0⟩).map_results_build, hf.map_results_build, variablesOf_negatedGroup h]
  split
  · split
    · refine congrArg (fun results => Call.returns (Except.ok results)) ?_
      rw [List.map_map]
      exact List.map_congr_left fun v _ => decide_not
    · rfl
  · rfl

end

/-- The formulas of the sources that names are replaced by. -/
theorem exists_formulas_of_forall {F : String → String} {names : List String}
    (h : ∀ x ∈ names, IsProposition (F x)) :
    ∃ g : String → Formula, ∀ x ∈ names, Says (F x) (g x) := by
  have hexists : ∀ x, ∃ f, x ∈ names → Says (F x) f := by
    intro x
    by_cases hx : x ∈ names
    · obtain ⟨f, hf⟩ := (h x hx).exists_formula
      exact ⟨f, fun _ => hf⟩
    · exact ⟨.atom x ⟨0, 0⟩, fun hmem => absurd hmem hx⟩
  exact Classical.skolem.1 hexists

/-- To replace names in a text is to replace them in the valuation. With a source that has a
truth value in place of every name, a source with a truth value has one again, its variables
are those of what was put in, and its value is that of the source where each name has the
value of what replaces it. In particular a group has the variables, values and results of
what it holds, a negated group has the opposite ones, and two groups with a connective
between them have the value of the connective. -/
theorem valueOf_substitute :
    (∀ (F : String → String) (source : String), IsProposition source →
      (∀ x ∈ variablesOf source, IsProposition (F x)) →
      IsProposition (substitute F source) ∧
      (∀ name, name ∈ variablesOf (substitute F source) ↔
        ∃ x ∈ variablesOf source, name ∈ variablesOf (F x)) ∧
      ∀ ρ, ∃ σ value, (∀ x ∈ variablesOf source, valueOf (F x) ρ = .ok (σ x)) ∧
        valueOf source σ = .ok value ∧ valueOf (substitute F source) ρ = .ok value) ∧
    (∀ e, IsProposition e →
      variablesOf ("(" ++ e ++ ")") = variablesOf e ∧
      (∀ ρ, valueOf ("(" ++ e ++ ")") ρ = valueOf e ρ) ∧
      (∀ ρ, valueOf ("~(" ++ e ++ ")") ρ = (valueOf e ρ).map (!·)) ∧
      ∀ limit,
        (Table.build limit ("(" ++ e ++ ")")).map (·.map Table.results)
          = (Table.build limit e).map (·.map Table.results) ∧
        (Table.build limit ("~(" ++ e ++ ")")).map (·.map Table.results)
          = ((Table.build limit e).map (·.map Table.results)).map (·.map (List.map (!·)))) ∧
    ∀ (c : Connective) (e e' : String), IsProposition e → IsProposition e' → ∀ ρ,
      valueOf ("(" ++ e ++ ") " ++ String.singleton c.glyph ++ " (" ++ e' ++ ")") ρ
        = do return c.apply (← valueOf e ρ) (← valueOf e' ρ) := by
  refine ⟨?_, ?_, fun c e e' h h' ρ => valueOf_joinedGroups h h' c ρ⟩
  · intro F source hsource hF
    obtain ⟨f, hf⟩ := hsource.exists_formula
    obtain ⟨g, hg⟩ := exists_formulas_of_forall hF
    have hsubst := hf.substitute fun name hname => hg name (hf.mem_variablesOf.2 hname)
    refine ⟨hsubst.isProposition, fun name => ?_, fun ρ => ?_⟩
    · rw [hsubst.mem_variablesOf, Formula.mem_names_substitute]
      constructor
      · intro h
        obtain ⟨x, hx, hname⟩ := h
        have hx := hf.mem_variablesOf.2 hx
        exact ⟨x, hx, (hg x hx).mem_variablesOf.2 hname⟩
      · intro h
        obtain ⟨x, hx, hname⟩ := h
        exact ⟨x, hf.mem_variablesOf.1 hx, (hg x hx).mem_variablesOf.1 hname⟩
    · refine ⟨fun x => decide ((g x).Holds ρ), _, fun x hx => (hg x hx).valueOf_eq ρ,
        hf.valueOf_eq _, ?_⟩
      rw [hsubst.valueOf_eq]
      exact congrArg Except.ok (decide_eq_decide.2 (f.holds_substitute ρ))
  · intro e he
    exact ⟨variablesOf_group he, valueOf_group he, valueOf_negatedGroup he,
      fun limit => ⟨results_group he limit, results_negatedGroup he limit⟩⟩

/-- An implication with sources of two variables and one in place of its names. -/
theorem valueOf_substituted_implication :
    substitute (fun x => if x = "p" then "a ∧ b" else "~a") "p⇒ q" = "(a ∧ b)⇒ (~a)" ∧
      IsProposition "(a ∧ b)⇒ (~a)" ∧ "b" ∈ variablesOf "(a ∧ b)⇒ (~a)" := by
  have htext : substitute (fun x => if x = "p" then "a ∧ b" else "~a") "p⇒ q"
      = "(a ∧ b)⇒ (~a)" := by
    decide +kernel
  have hsource : IsProposition "p⇒ q" :=
    ⟨.binary .implies (.atom "p" ⟨0, 1⟩) (.atom "q" ⟨5, 6⟩) ⟨0, 6⟩, by decide +kernel, rfl⟩
  have hfirst : IsProposition "a ∧ b" :=
    ⟨.binary .and (.atom "a" ⟨0, 1⟩) (.atom "b" ⟨6, 7⟩) ⟨0, 7⟩, by decide +kernel, rfl⟩
  have hsecond : IsProposition "~a" :=
    ⟨.negation (.atom "a" ⟨1, 2⟩) ⟨0, 2⟩, by decide +kernel, rfl⟩
  obtain ⟨hproposition, hvariables, -⟩ := valueOf_substitute.1 _ _ hsource fun x _ =>
    show IsProposition (if x = "p" then "a ∧ b" else "~a") by
      split
      · exact hfirst
      · exact hsecond
  rw [htext] at hproposition hvariables
  exact ⟨htext, hproposition, (hvariables "b").2 ⟨"p", by decide +kernel, by decide +kernel⟩⟩

end TruthTable
