import TruthTable.Proofs.Reading.Precedence

/-!
# The grammar of formulas

The layered grammar that the binding powers stand for:

    primary    := name | "(" assignment ")"
    unary      := "~" unary | primary
    binary     := unary (("∧" | "∨" | "⇒") unary)*
    assignment := binary ["=" assignment]

with the left side of `=` a bare name. A chain of connectives is read from the left, so
the phrase `chain left` stands for the repetition after the operands that make up `left`.

`Derives` is that grammar as a relation between lexemes and formulas, in which the places
of the parts are free. It describes exactly the well-formed formulas over their own
lexemes (`derives_iff`), and a reader by the standard rules reads what is derived
(`Derives.readAs`): the loop over tails follows the chain, which is why the invariant for
a chain is about any way to read on.

Main statement: `parse_ok_iff_derives`, reading succeeds exactly on what the grammar
derives, with the tree that it derives.
-/

namespace TruthTable

/-- The phrases of the grammar. -/
inductive Phrase where
  | primary
  | unary
  | chain (left : Formula)
  | binary
  | assignment

/-- `Derives phrase ts f`: the lexemes `ts` are a phrase of that kind, and `f` is its formula.
The formula of a chain begins with the left side that the chain goes on with. -/
inductive Derives : Phrase → List Lexeme → Formula → Prop where
  | name (text : String) (span : Span) : Derives .primary [.name text] (.atom text span)
  | group {ts f} (span : Span) (h : Derives .assignment ts f) :
      Derives .primary (.sign .openParen :: (ts ++ [.sign .closeParen])) (.grouped f span)
  | negation {ts f} (span : Span) (h : Derives .unary ts f) :
      Derives .unary (.sign .tilde :: ts) (.negation f span)
  | primary {ts f} (h : Derives .primary ts f) : Derives .unary ts f
  | chainEnd (left : Formula) : Derives (.chain left) [] left
  | chainStep {left right f ts us} (c : Connective) (span : Span) (hright : Derives .unary ts right)
      (hrest : Derives (.chain (.binary c left right span)) us f) :
      Derives (.chain left) (.sign c.kind :: (ts ++ us)) f
  | binary {ts us first f} (hfirst : Derives .unary ts first) (hrest : Derives (.chain first) us f) :
      Derives .binary (ts ++ us) f
  | plain {ts f} (h : Derives .binary ts f) : Derives .assignment ts f
  | assignment {ts us target value} (span : Span) (htarget : Derives .binary ts target)
      (hname : target.isAtom = true) (hvalue : Derives .assignment us value) :
      Derives .assignment (ts ++ .sign .assignment :: us) (.assignment target value span)

/-! ## What is derived is well formed -/

/-- The lexemes of a phrase before it begins. -/
def Phrase.lexemes : Phrase → List Lexeme
  | chain left => left.lexemes
  | _ => []

theorem Derives.lexemes_eq {phrase : Phrase} {ts : List Lexeme} {f : Formula}
    (h : Derives phrase ts f) : f.lexemes = phrase.lexemes ++ ts := by
  induction h with
  | name => rfl
  | group span _ ih => rw [Formula.lexemes, ih]; rfl
  | negation span _ ih => rw [Formula.lexemes, ih]; rfl
  | primary _ ih => exact ih
  | chainEnd left => exact (List.append_nil _).symm
  | chainStep c span _ _ ihRight ihRest =>
    simp only [ihRest, Phrase.lexemes, Formula.lexemes, ihRight, List.append_assoc,
      List.cons_append, List.nil_append]
  | binary _ _ ihFirst ihRest =>
    rw [ihRest, Phrase.lexemes, ihFirst]
    rfl
  | plain _ ih => exact ih
  | assignment span _ _ _ ihTarget ihValue =>
    rw [Formula.lexemes, ihTarget, ihValue]
    rfl

/-- The shape of the formula of a phrase. -/
def Phrase.Fits (f : Formula) : Phrase → Prop
  | primary | unary => f.isOperand = true ∧ f.WellFormed
  | chain left => left.isAssignment = false ∧ left.WellFormed →
      f.isAssignment = false ∧ f.WellFormed
  | binary => f.isAssignment = false ∧ f.WellFormed
  | assignment => f.WellFormed

theorem Formula.isAssignment_of_isOperand {f : Formula} (h : f.isOperand = true) :
    f.isAssignment = false := by
  cases f with
  | assignment _ _ _ => cases h
  | _ => rfl

theorem Derives.fits {phrase : Phrase} {ts : List Lexeme} {f : Formula}
    (h : Derives phrase ts f) : phrase.Fits f := by
  induction h with
  | name => exact ⟨rfl, trivial⟩
  | group span _ ih => exact ⟨rfl, ih⟩
  | negation span _ ih => exact ⟨rfl, ih.1, ih.2⟩
  | primary _ ih => exact ih
  | chainEnd left => exact id
  | chainStep c span _ _ ihRight ihRest =>
    intro hfits
    exact ihRest ⟨rfl, hfits.1, ihRight.1, hfits.2, ihRight.2⟩
  | binary _ _ ihFirst ihRest =>
    exact ihRest ⟨Formula.isAssignment_of_isOperand ihFirst.1, ihFirst.2⟩
  | plain _ ih => exact ih.2
  | assignment span _ hname _ ihTarget ihValue => exact ⟨hname, ihTarget.2, ihValue⟩

/-! ## What is well formed is derived -/

/-- One more connective with its operand at the end of a chain. -/
theorem Derives.chain_append {left l r : Formula} {ts us : List Lexeme}
    (h : Derives (.chain left) ts l) (c : Connective) (span : Span) (hr : Derives .unary us r) :
    Derives (.chain left) (ts ++ .sign c.kind :: us) (.binary c l r span) := by
  generalize hphrase : Phrase.chain left = phrase at h
  induction h generalizing left with
  | chainEnd left' =>
    cases hphrase
    have hstep := Derives.chainStep c span hr (.chainEnd (.binary c left' r span))
    rwa [List.append_nil] at hstep
  | chainStep c' span' hright _ _ ihRest =>
    cases hphrase
    have hstep := Derives.chainStep c' span' hright (ihRest rfl)
    rwa [← List.append_assoc] at hstep
  | _ => cases hphrase

theorem Derives.binary_append {l r : Formula} {ts us : List Lexeme} (h : Derives .binary ts l)
    (c : Connective) (span : Span) (hr : Derives .unary us r) :
    Derives .binary (ts ++ .sign c.kind :: us) (.binary c l r span) := by
  cases h with
  | binary hfirst hrest =>
    rw [List.append_assoc]
    exact .binary hfirst (hrest.chain_append c span hr)

theorem Derives.binary_of_unary {ts : List Lexeme} {f : Formula} (h : Derives .unary ts f) :
    Derives .binary ts f := by
  have hbinary := Derives.binary h (.chainEnd f)
  rwa [List.append_nil] at hbinary

/-- A well-formed formula is derived from its lexemes, as an operand or a chain if it is one. -/
theorem Formula.WellFormed.derives {f : Formula} (h : f.WellFormed) :
    (f.isOperand = true → Derives .unary f.lexemes f) ∧
      (f.isAssignment = false → Derives .binary f.lexemes f) ∧ Derives .assignment f.lexemes f := by
  induction f with
  | atom name span =>
    have hunary := Derives.primary (.name name span)
    exact ⟨fun _ => hunary, fun _ => hunary.binary_of_unary, .plain hunary.binary_of_unary⟩
  | negation operand span ih =>
    have hunary := Derives.negation span ((ih h.2).1 h.1)
    exact ⟨fun _ => hunary, fun _ => hunary.binary_of_unary, .plain hunary.binary_of_unary⟩
  | binary c left right span ihLeft ihRight =>
    obtain ⟨hassign, hoperand, hleft, hright⟩ := h
    have hbinary := ((ihLeft hleft).2.1 hassign).binary_append c span ((ihRight hright).1 hoperand)
    exact ⟨nofun, fun _ => hbinary, .plain hbinary⟩
  | grouped inner span ih =>
    have hunary := Derives.primary (.group span (ih h).2.2)
    exact ⟨fun _ => hunary, fun _ => hunary.binary_of_unary, .plain hunary.binary_of_unary⟩
  | assignment target value span ihTarget ihValue =>
    obtain ⟨hname, htarget, hvalue⟩ := h
    have hbinary : Derives .binary target.lexemes target := by
      refine (ihTarget htarget).2.1 ?_
      cases target <;> first | rfl | cases hname
    exact ⟨nofun, nofun, .assignment span hbinary hname (ihValue hvalue).2.2⟩

/-- The grammar derives the well-formed formulas, each from its lexemes and nothing else. -/
theorem derives_iff {ts : List Lexeme} {f : Formula} :
    Derives .assignment ts f ↔ f.WellFormed ∧ f.lexemes = ts := by
  constructor
  · intro h
    exact ⟨h.fits, h.lexemes_eq⟩
  · intro h
    obtain ⟨hwell, rfl⟩ := h
    exact hwell.derives.2.2

/-- The places of the parts are free in a derivation. -/
theorem derives_congr {ts : List Lexeme} {f g : Formula} (h : f.bare = g.bare) :
    Derives .assignment ts f ↔ Derives .assignment ts g := by
  rw [derives_iff, derives_iff, ← Formula.wellFormed_bare f, ← Formula.lexemes_bare f, h,
    Formula.wellFormed_bare, Formula.lexemes_bare]

/-! ## What is derived is read -/

namespace Rules

theorem power_standard_le (kind : Kind) : standard.power kind ≤ .logical := by
  cases kind <;> decide

/-- At the power of the connectives and above, nothing goes on. -/
theorem settled_standard {power : BindingPower} (h : .logical ≤ power) (f : Formula) (r : Reader) :
    standard.Settled power f r := by
  intro t _
  exact Or.inl (Nat.le_trans (power_standard_le t.kind) h)

theorem tail?_standard_kind (c : Connective) :
    standard.tail? c.kind = some (.logical, .connective) := by
  cases c <;> rfl

theorem tailAt?_standard_connective {power : BindingPower} (h : power < .logical) (left : Formula)
    {r : Reader} {t : Token} (ht : r.peek? = some t) {c : Connective} (hkind : t.kind = c.kind) :
    standard.tailAt? power left r = some (.logical, .connective) := by
  refine tailAt?_eq_some_iff.2 ⟨t, ht, hkind ▸ tail?_standard_kind c, h, fun hassign => ?_⟩
  rw [hkind] at hassign
  cases c <;> cases hassign

theorem tailAt?_standard_assignment {left : Formula} (hname : left.isAtom = true) {r : Reader}
    {t : Token} (ht : r.peek? = some t) (hkind : t.kind = .assignment) :
    standard.tailAt? .lowest left r = some (.assignment, .assignment) :=
  tailAt?_eq_some_iff.2 ⟨t, ht, hkind ▸ rfl, Nat.zero_lt_one, fun _ => hname⟩

end Rules

/-- The rest of a source is at an end or at a closing parenthesis. -/
def Reader.AtEnd (r : Reader) : Prop := ∀ t ∈ r.peek?, t.kind = .closeParen

theorem Reader.AtEnd.settled {r : Reader} (h : r.AtEnd) (power : BindingPower) (f : Formula) :
    Rules.standard.Settled power f r := by
  intro t ht
  rw [h t ht]
  exact Or.inl (BindingPower.lowest_le power)

/-- Reading a phrase between two readers comes, but for places, to the formula `f`. An operand
or a chain leaves any way to read on open; a whole assignment ends where nothing goes on. -/
def Phrase.ReadAs (f : Formula) (r s : Reader) : Phrase → Prop
  | primary | unary => ∃ f', f'.bare = f.bare ∧ ∀ power g rest,
      Rules.standard.Reads (.tails f' power) s g rest → Rules.standard.Reads (.whole power) r g rest
  | chain left => ∀ left', left'.bare = left.bare → ∃ f', f'.bare = f.bare ∧
      ∀ power g rest, power < .logical → Rules.standard.Reads (.tails f' power) s g rest →
        Rules.standard.Reads (.tails left' power) r g rest
  | binary => ∃ f', f'.bare = f.bare ∧ ∀ power g rest, power < .logical →
      Rules.standard.Reads (.tails f' power) s g rest → Rules.standard.Reads (.whole power) r g rest
  | assignment => s.AtEnd → ∃ f', f'.bare = f.bare ∧
      Rules.standard.Reads (.whole .lowest) r f' s

/-- An operand is read whole at the power of the connectives or above. -/
theorem Phrase.ReadAs.whole {f : Formula} {r s : Reader} (h : Phrase.unary.ReadAs f r s)
    {power : BindingPower} (hpower : .logical ≤ power) :
    ∃ f', f'.bare = f.bare ∧ Rules.standard.Reads (.whole power) r f' s := by
  obtain ⟨f', hbare, hread⟩ := h
  have hstop := Rules.tailAt?_eq_none_iff.2 (Rules.settled_standard hpower f' s)
  exact ⟨f', hbare, hread power f' s (.stop hstop)⟩

/-- The lexemes `ts` lie between the two readers. -/
def Reader.Passes (r : Reader) (ts : List Lexeme) (s : Reader) : Prop :=
  ∃ us, us.map Token.lexeme = ts ∧ r.ReadTo us s

namespace Reader.Passes

variable {r s : Reader} {ts us : List Lexeme}

theorem eq_of_nil (h : r.Passes [] s) : r = s := by
  obtain ⟨us, hus, hread⟩ := h
  obtain rfl := List.map_eq_nil_iff.1 hus
  obtain ⟨_, _, _⟩ := r
  obtain ⟨_, _, _⟩ := s
  obtain ⟨hsource, hpending, hseen⟩ := hread
  cases hsource
  cases hpending
  cases hseen
  rfl

theorem split (h : r.Passes (ts ++ us) s) : ∃ m, r.Passes ts m ∧ m.Passes us s := by
  obtain ⟨vs, hvs, hread⟩ := h
  obtain ⟨ts', us', rfl, hts, hus⟩ := List.map_eq_append_iff.1 hvs
  obtain ⟨m, hleft, hright⟩ := hread.split
  exact ⟨m, ⟨ts', hts, hleft⟩, ⟨us', hus, hright⟩⟩

theorem uncons {x : Lexeme} (h : r.Passes (x :: ts) s) :
    ∃ t m, t.lexeme = x ∧ r.ReadTo [t] m ∧ m.Passes ts s := by
  obtain ⟨vs, hvs, hread⟩ := h
  obtain ⟨t, us, rfl, ht, hus⟩ := List.map_eq_cons_iff.1 hvs
  have hsplit : r.ReadTo ([t] ++ us) s := hread
  obtain ⟨m, hleft, hright⟩ := hsplit.split
  exact ⟨t, m, ht, hleft, us, hus, hright⟩

end Reader.Passes

theorem Derives.readAs {phrase : Phrase} {ts : List Lexeme} {f : Formula}
    (h : Derives phrase ts f) : ∀ {r s : Reader}, r.Passes ts s → phrase.ReadAs f r s := by
  induction h with
  | name text span =>
    intro r s hpass
    obtain ⟨t, m, ht, hstep, hend⟩ := hpass.uncons
    obtain rfl := hend.eq_of_nil
    obtain ⟨hkind, htext⟩ := Prod.mk.inj ht
    refine ⟨.atom t.text t.span, ?_, fun power g rest hon => .name rfl hkind hstep hon⟩
    rw [htext]
    rfl
  | group span _ ih =>
    intro r s hpass
    obtain ⟨opening, inside, hopening, hopen, hpass⟩ := hpass.uncons
    obtain ⟨u, hinside, hpass⟩ := hpass.split
    obtain ⟨closing, v, hclosing, hclose, hend⟩ := hpass.uncons
    obtain rfl := hend.eq_of_nil
    have hkind : closing.kind = .closeParen := congrArg Prod.fst hclosing
    have hatEnd : u.AtEnd := by
      intro t ht
      cases ht.symm.trans hclose.peek?_eq
      exact hkind
    obtain ⟨inner, hbare, hinner⟩ := ih hinside hatEnd
    refine ⟨.grouped inner (opening.span.through closing.span), ?_, fun power g rest hon => ?_⟩
    · rw [Formula.bare, hbare]
      rfl
    · exact .group rfl (congrArg Prod.fst hopening) hopen hinner hkind hclose hon
  | negation span _ ih =>
    intro r s hpass
    obtain ⟨sign, m, hsign, hstep, hpass⟩ := hpass.uncons
    -- The operand is read above all connectives, so it takes none of them up.
    have hpower : BindingPower.logical ≤ .unary := by decide
    obtain ⟨operand, hbare, hoperand⟩ := (ih hpass).whole hpower
    refine ⟨.negation operand (sign.span.through operand.span), ?_, fun power g rest hon => ?_⟩
    · rw [Formula.bare, hbare]
      rfl
    · exact .negation rfl (congrArg Prod.fst hsign) hstep hoperand hon
  | primary _ ih => exact ih
  | chainEnd left =>
    intro r s hpass left' hbare
    obtain rfl := hpass.eq_of_nil
    exact ⟨left', hbare, fun power g rest _ hon => hon⟩
  | @chainStep left right f ts us c span _ _ ihRight ihRest =>
    intro r s hpass left' hleft
    obtain ⟨sign, m, hsign, hstep, hpass⟩ := hpass.uncons
    obtain ⟨u, hpassRight, hpassRest⟩ := hpass.split
    have hkind : sign.kind = c.kind := congrArg Prod.fst hsign
    -- The right side takes up no connective either, since all have one power.
    obtain ⟨right', hright, hreadRight⟩ := (ihRight hpassRight).whole (Nat.le_refl _)
    obtain ⟨f', hbare, hon⟩ := ihRest hpassRest
      (.binary c left' right' (left'.span.through right'.span)) (by
        rw [Formula.bare, hleft, hright]
        rfl)
    refine ⟨f', hbare, fun power g rest hpower hread => ?_⟩
    have htail := Rules.tailAt?_standard_connective hpower left' hstep.peek?_eq hkind
    exact .connective htail hkind hstep hreadRight (hon power g rest hpower hread)
  | binary _ _ ihFirst ihRest =>
    intro r s hpass
    obtain ⟨m, hpassFirst, hpassRest⟩ := hpass.split
    obtain ⟨first', hfirst, hreadFirst⟩ := ihFirst hpassFirst
    obtain ⟨f', hbare, hon⟩ := ihRest hpassRest first' hfirst
    exact ⟨f', hbare, fun power g rest hpower hread =>
      hreadFirst power g rest (hon power g rest hpower hread)⟩
  | plain _ ih =>
    intro r s hpass hatEnd
    obtain ⟨f', hbare, hon⟩ := ih hpass
    have hstop := Rules.tailAt?_eq_none_iff.2 (hatEnd.settled .lowest f')
    exact ⟨f', hbare, hon .lowest f' s (by decide) (.stop hstop)⟩
  | assignment span _ hname _ ihTarget ihValue =>
    intro r s hpass hatEnd
    obtain ⟨m, hpassTarget, hpass⟩ := hpass.split
    obtain ⟨sign, u, hsign, hstep, hpassValue⟩ := hpass.uncons
    have hkind : sign.kind = .assignment := congrArg Prod.fst hsign
    obtain ⟨target', htarget, hreadTarget⟩ := ihTarget hpassTarget
    obtain ⟨value', hvalue, hreadValue⟩ := ihValue hpassValue hatEnd
    -- Nothing goes on with the target but the sign, and only because it is a bare name.
    have hname' : target'.isAtom = true := (Formula.isAtom_of_bare_eq htarget).trans hname
    have htail := Rules.tailAt?_standard_assignment hname' hstep.peek?_eq hkind
    have hstop := Rules.tailAt?_eq_none_iff.2 (hatEnd.settled .lowest
      (.assignment target' value' (target'.span.through value'.span)))
    refine ⟨.assignment target' value' (target'.span.through value'.span), ?_,
      hreadTarget .lowest _ s (by decide) (.assignment htail hkind hstep hreadValue (.stop hstop))⟩
    rw [Formula.bare, htarget, hvalue]
    rfl

/-! ## Reading and deriving -/

theorem Formula.Obeys.wellFormed {f : Formula} (h : f.Obeys Rules.standard) : f.WellFormed := by
  induction f with
  | atom name span => trivial
  | negation operand span ih => exact ⟨isOperand_iff.2 h.1, ih h.2⟩
  | binary c left right span ihLeft ihRight =>
    obtain ⟨hleft, hright, hobeysLeft, hobeysRight⟩ := h
    refine ⟨?_, ?_, ihLeft hobeysLeft, ihRight hobeysRight⟩
    · rw [← Bool.not_eq_true, isAssignment_iff]
      exact fun hsign => (hleft _ hsign).1 rfl
    · rw [isOperand_iff, Option.eq_none_iff_forall_not_mem]
      intro k hk
      have hc : Rules.standard.power c.kind = .logical :=
        Rules.power_eq (Rules.tail?_standard_kind c)
      have hlt := hright k hk
      rw [hc] at hlt
      exact BindingPower.not_lt.2 (Rules.power_standard_le k) hlt
  | grouped inner span ih => exact ih h
  | assignment target value span ihTarget ihValue =>
    exact ⟨h.1, ihTarget h.2.1, ihValue h.2.2⟩

/-- A formula that is read is derived from the lexemes of its source. -/
theorem derives_of_parse {vs : Variables} {source : String} {f : Formula}
    (h : (parse vs source).1 = .ok f) :
    Derives .assignment ((tokens source).map Token.lexeme) f := by
  have hreads := parse_eq_ok_iff.1 (Prod.ext h rfl)
  have hproper : ∀ t ∈ (Reader.start vs source).pending, t.Proper :=
    fun t ht => proper_of_mem_tokens ht
  obtain ⟨ts, hts, hlex⟩ := hreads.exists_readTo hproper
  have htokens : tokens source = ts := by simpa [Reader.start] using hts.pending_eq
  rw [derives_iff, htokens]
  exact ⟨(hreads.obeys trivial).1.wellFormed, hlex⟩

/-- What is derived from the lexemes of a source is read, but for places. -/
theorem Derives.exists_parse {source : String} {e : Formula}
    (h : Derives .assignment ((tokens source).map Token.lexeme) e) (vs : Variables) :
    ∃ f, parse vs source = (.ok f, vs.clear.noteAll (tokens source)) ∧ f.bare = e.bare := by
  have hpass : (Reader.start vs source).Passes ((tokens source).map Token.lexeme)
      ⟨source, [], vs.clear.noteAll (tokens source)⟩ :=
    ⟨tokens source, rfl, rfl, (List.append_nil _).symm, rfl⟩
  obtain ⟨f, hbare, hreads⟩ := h.readAs hpass (by intro t ht; cases ht)
  exact ⟨f, parse_eq_ok_iff.2 hreads, hbare⟩

/-- The grammar is unambiguous: some reader passes the lexemes, and it has one answer. -/
theorem Derives.unique {ts : List Lexeme} {e e' : Formula} (h : Derives .assignment ts e)
    (h' : Derives .assignment ts e') : e.bare = e'.bare := by
  -- Tokens that stand nowhere will do: what is read does not depend on places.
  let us : List Token := ts.map fun x => ⟨x.1, x.2, ⟨0, 0⟩⟩
  have hpass : (⟨"", us, .empty⟩ : Reader).Passes ts ⟨"", [], Variables.empty.noteAll us⟩ := by
    refine ⟨us, ?_, rfl, (List.append_nil _).symm, rfl⟩
    rw [List.map_map]
    exact List.map_id ts
  have hatEnd : (⟨"", [], Variables.empty.noteAll us⟩ : Reader).AtEnd := by
    intro t ht
    cases ht
  obtain ⟨f, hbare, hreads⟩ := h.readAs hpass hatEnd
  obtain ⟨f', hbare', hreads'⟩ := h'.readAs hpass hatEnd
  rw [← hbare, ← hbare', (hreads.unique hreads').1]

/-- Reading a source succeeds with a formula, but for places, exactly if the grammar derives the
formula from the lexemes of the source. The grammar has at most one formula for any lexemes,
and the formula is written with all of them, in order. -/
theorem parse_ok_iff_derives :
    (∀ (vs : Variables) (source : String) (e : Formula),
      (∃ f, (parse vs source).1 = .ok f ∧ f.bare = e.bare) ↔
        Derives .assignment ((tokens source).map Token.lexeme) e) ∧
    (∀ (ts : List Lexeme) (e e' : Formula),
      Derives .assignment ts e → Derives .assignment ts e' → e.bare = e'.bare) ∧
    ∀ (ts : List Lexeme) (e : Formula), Derives .assignment ts e → e.lexemes = ts := by
  refine ⟨fun vs source e => ⟨?_, ?_⟩, fun ts e e' h h' => h.unique h', fun ts e h => h.lexemes_eq⟩
  · intro h
    obtain ⟨f, hparse, hbare⟩ := h
    exact (derives_congr hbare).1 (derives_of_parse hparse)
  · intro h
    obtain ⟨f, hparse, hbare⟩ := h.exists_parse vs
    exact ⟨f, congrArg Prod.fst hparse, hbare⟩

/-- A chain of different connectives is read from the left. -/
theorem parse_mixed_chain :
    ∃ f, (parse .empty "p∧q ∨ r").1 = .ok f ∧ f.bare =
      .binary .or (.binary .and (.atom "p" ⟨0, 0⟩) (.atom "q" ⟨0, 0⟩) ⟨0, 0⟩) (.atom "r" ⟨0, 0⟩)
        ⟨0, 0⟩ := by
  have hname (text : String) : Derives .unary [.name text] (.atom text ⟨0, 0⟩) :=
    .primary (.name text ⟨0, 0⟩)
  have hderives := Derives.plain (.binary (hname "p") (.chainStep .and ⟨0, 0⟩ (hname "q")
    (.chainStep .or ⟨0, 0⟩ (hname "r") (.chainEnd _))))
  have hlex : (tokens "p∧q ∨ r").map Token.lexeme = [.name "p"] ++ (.sign Connective.and.kind ::
      ([.name "q"] ++ (.sign Connective.or.kind :: ([.name "r"] ++ [])))) := by decide +kernel
  rw [← hlex] at hderives
  exact (parse_ok_iff_derives.1 .empty "p∧q ∨ r" _).2 hderives

end TruthTable
