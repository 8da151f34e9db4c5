import TruthTable.Proofs.Grammar
import TruthTable.Proofs.Slices

/-!
# Spans of what is read

A formula that has been read knows where its parts stand. `WrittenWith f ts` says that `f` is
written with the tokens `ts`, in order and with none left over, and that the spans in it are
those of the tokens: one rule for each way in which reading puts a formula together. So the
tokens of a part are a stretch of those of the whole (`parts`), and its span runs from the
first of them to the last.

That a part can be read by itself has two sides. Its slice of the source falls into its own
tokens, since no token is cut at either end. And the part is well formed, so the grammar
derives it from these tokens and derives nothing else; what is read then has its own spans
right, and there is one way to have them right over given tokens (`WrittenWith.unique`).

Main statement: `parse_standsAt`.
-/

namespace TruthTable

namespace Formula

/-- The formulas that the formula is directly made of, from left to right. -/
def children : Formula → List Formula
  | atom _ _ => []
  | negation operand _ => [operand]
  | binary _ left right _ => [left, right]
  | grouped inner _ => [inner]
  | assignment target value _ => [target, value]

/-- All parts of a formula written with the tokens `ts`, each before the parts in it, and each
with the tokens that it is written with. -/
def parts : Formula → List Token → List (Formula × List Token)
  | atom name span, ts => [(atom name span, ts)]
  | negation operand span, ts => (negation operand span, ts) :: operand.parts ts.tail
  | binary c left right span, ts =>
    (binary c left right span, ts) :: (left.parts (ts.take left.lexemes.length)
      ++ right.parts (ts.drop (left.lexemes.length + 1)))
  | grouped inner span, ts => (grouped inner span, ts) :: inner.parts ts.tail.dropLast
  | assignment target value span, ts =>
    (assignment target value span, ts) :: (target.parts (ts.take target.lexemes.length)
      ++ value.parts (ts.drop (target.lexemes.length + 1)))

/-- The formula with all its offsets counted from `origin`. -/
def relativeTo (origin : Offset) : Formula → Formula
  | atom name span => atom name (span.relativeTo origin)
  | negation operand span => negation (operand.relativeTo origin) (span.relativeTo origin)
  | binary c left right span =>
    binary c (left.relativeTo origin) (right.relativeTo origin) (span.relativeTo origin)
  | grouped inner span => grouped (inner.relativeTo origin) (span.relativeTo origin)
  | assignment target value span =>
    assignment (target.relativeTo origin) (value.relativeTo origin) (span.relativeTo origin)

/-- The formula is written with the tokens, and its spans are theirs. -/
inductive WrittenWith : Formula → List Token → Prop where
  | atom {t} (hkind : t.kind = .identifier) : WrittenWith (.atom t.text t.span) [t]
  | negation {sign f ts} (hsign : sign.lexeme = .sign .tilde) (hoperand : WrittenWith f ts) :
      WrittenWith (.negation f (sign.span.through f.span)) (sign :: ts)
  | binary {sign c left right ts us} (hsign : sign.lexeme = .sign c.kind)
      (hleft : WrittenWith left ts) (hright : WrittenWith right us) :
      WrittenWith (.binary c left right (left.span.through right.span)) (ts ++ sign :: us)
  | grouped {opening inner ts closing} (hopening : opening.lexeme = .sign .openParen)
      (hinner : WrittenWith inner ts) (hclosing : closing.lexeme = .sign .closeParen) :
      WrittenWith (.grouped inner (opening.span.through closing.span))
        (opening :: (ts ++ [closing]))
  | assignment {sign target value ts us} (hsign : sign.lexeme = .sign .assignment)
      (htarget : WrittenWith target ts) (hvalue : WrittenWith value us) :
      WrittenWith (.assignment target value (target.span.through value.span)) (ts ++ sign :: us)

theorem map_fst_parts (f : Formula) (ts : List Token) :
    (f.parts ts).map Prod.fst = f.preorder := by
  induction f generalizing ts with
  | atom name span => rfl
  | negation operand span ih => rw [parts, List.map_cons, ih]; rfl
  | binary c left right span ihLeft ihRight =>
    rw [parts, List.map_cons, List.map_append, ihLeft, ihRight]
    rfl
  | grouped inner span ih => rw [parts, List.map_cons, ih]; rfl
  | assignment target value span ihTarget ihValue =>
    rw [parts, List.map_cons, List.map_append, ihTarget, ihValue]
    rfl

@[simp] theorem bare_relativeTo (origin : Offset) (f : Formula) :
    (f.relativeTo origin).bare = f.bare := by
  induction f <;> simp_all [relativeTo, bare]

theorem span_relativeTo (origin : Offset) (f : Formula) :
    (f.relativeTo origin).span = f.span.relativeTo origin := by
  cases f <;> rfl

namespace WrittenWith

variable {f f' : Formula} {ts : List Token}

theorem lexemes_eq (h : f.WrittenWith ts) : f.lexemes = ts.map Token.lexeme := by
  induction h with
  | atom hkind => rw [lexemes, List.map_singleton, Token.lexeme_eq_name hkind]
  | negation hsign _ ih => rw [lexemes, List.map_cons, hsign, ih]
  | binary hsign _ _ ihLeft ihRight =>
    rw [lexemes, List.map_append, List.map_cons, hsign, ihLeft, ihRight]
  | grouped hopening _ hclosing ih =>
    rw [lexemes, List.map_cons, List.map_append, List.map_singleton, hopening, hclosing, ih]
  | assignment hsign _ _ ihTarget ihValue =>
    rw [lexemes, List.map_append, List.map_cons, hsign, ihTarget, ihValue]

theorem length_lexemes (h : f.WrittenWith ts) : f.lexemes.length = ts.length := by
  rw [h.lexemes_eq, List.length_map]

/-- Formulas that differ in places only are written with equally many tokens. -/
theorem length_eq_of_bare_eq {us : List Token} (h : f.WrittenWith ts) (h' : f'.WrittenWith us)
    (hbare : f.bare = f'.bare) : ts.length = us.length := by
  rw [← h.length_lexemes, ← h'.length_lexemes, ← lexemes_bare f, hbare, lexemes_bare]

/-- The span runs from the first of the tokens to the last. -/
theorem exists_ends (h : f.WrittenWith ts) : ∃ first last, ts.head? = some first ∧
    ts.getLast? = some last ∧ f.span = first.span.through last.span := by
  induction h with
  | @atom t _ => exact ⟨t, t, rfl, rfl, rfl⟩
  | @negation sign f ts _ _ ih =>
    obtain ⟨first, last, -, hlast, hspan⟩ := ih
    refine ⟨sign, last, rfl, by rw [List.getLast?_cons, hlast]; rfl, ?_⟩
    rw [span, hspan]
    rfl
  | binary _ _ _ ihLeft ihRight =>
    obtain ⟨first, _, hfirst, -, hleft⟩ := ihLeft
    obtain ⟨_, last, -, hlast, hright⟩ := ihRight
    refine ⟨first, last, by simp [hfirst], by simp [List.getLast?_cons, hlast], ?_⟩
    rw [span, hleft, hright]
    rfl
  | @grouped opening inner ts closing _ _ _ _ =>
    exact ⟨opening, closing, rfl, by simp [List.getLast?_cons], rfl⟩
  | assignment _ _ _ ihTarget ihValue =>
    obtain ⟨first, _, hfirst, -, htarget⟩ := ihTarget
    obtain ⟨_, last, -, hlast, hvalue⟩ := ihValue
    refine ⟨first, last, by simp [hfirst], by simp [List.getLast?_cons, hlast], ?_⟩
    rw [span, htarget, hvalue]
    rfl

/-- Over given tokens, a formula is determined but for its places, and so are these. -/
theorem unique {us : List Token} (h : f.WrittenWith ts) (h' : f'.WrittenWith us) (htokens : ts = us)
    (hbare : f.bare = f'.bare) : f = f' := by
  induction h generalizing f' us with
  | atom _ =>
    cases h' with
    | atom _ =>
      obtain rfl := List.singleton_inj.1 htokens
      rfl
    | _ => cases hbare
  | negation _ _ ih =>
    cases h' with
    | negation _ hoperand' =>
      obtain ⟨rfl, hts⟩ := List.cons.inj htokens
      obtain rfl := ih hoperand' hts (Formula.negation.inj hbare).1
      rfl
    | _ => cases hbare
  | binary _ hleft _ ihLeft ihRight =>
    cases h' with
    | binary _ hleft' hright' =>
      obtain ⟨rfl, hl, hr, -⟩ := Formula.binary.inj hbare
      have hlength := hleft.length_eq_of_bare_eq hleft' hl
      obtain ⟨hts, hus⟩ := List.append_inj htokens hlength
      obtain rfl := ihLeft hleft' hts hl
      obtain rfl := ihRight hright' (List.cons.inj hus).2 hr
      rfl
    | _ => cases hbare
  | grouped _ _ _ ih =>
    cases h' with
    | grouped _ hinner' _ =>
      obtain ⟨rfl, hrest⟩ := List.cons.inj htokens
      obtain ⟨hts, hclosing⟩ := List.append_inj' hrest rfl
      obtain rfl := List.singleton_inj.1 hclosing
      obtain rfl := ih hinner' hts (Formula.grouped.inj hbare).1
      rfl
    | _ => cases hbare
  | assignment _ htarget _ ihTarget ihValue =>
    cases h' with
    | assignment _ htarget' hvalue' =>
      obtain ⟨ht, hv, -⟩ := Formula.assignment.inj hbare
      have hlength := htarget.length_eq_of_bare_eq htarget' ht
      obtain ⟨hts, hus⟩ := List.append_inj htokens hlength
      obtain rfl := ihTarget htarget' hts ht
      obtain rfl := ihValue hvalue' (List.cons.inj hus).2 hv
      rfl
    | _ => cases hbare

/-- The tokens and the formula can be counted from elsewhere together. -/
theorem relativeTo (h : f.WrittenWith ts) (origin : Offset) :
    (f.relativeTo origin).WrittenWith (ts.map (Token.relativeTo origin)) := by
  induction h with
  | @atom t hkind =>
    exact WrittenWith.atom (t := t.relativeTo origin) hkind
  | @negation sign f ts hsign _ ih =>
    rw [Formula.relativeTo, Span.relativeTo_through, ← span_relativeTo]
    have hsign' : (sign.relativeTo origin).lexeme = .sign .tilde := hsign
    exact .negation hsign' ih
  | @binary sign c left right ts us hsign _ _ ihLeft ihRight =>
    rw [Formula.relativeTo, Span.relativeTo_through, ← span_relativeTo, ← span_relativeTo,
      List.map_append]
    have hsign' : (sign.relativeTo origin).lexeme = .sign c.kind := hsign
    exact .binary hsign' ihLeft ihRight
  | @grouped opening inner ts closing hopening _ hclosing ih =>
    rw [Formula.relativeTo, Span.relativeTo_through, List.map_cons, List.map_append]
    have hopening' : (opening.relativeTo origin).lexeme = .sign .openParen := hopening
    have hclosing' : (closing.relativeTo origin).lexeme = .sign .closeParen := hclosing
    exact .grouped hopening' ih hclosing'
  | @assignment sign target value ts us hsign _ _ ihTarget ihValue =>
    rw [Formula.relativeTo, Span.relativeTo_through, ← span_relativeTo, ← span_relativeTo,
      List.map_append]
    have hsign' : (sign.relativeTo origin).lexeme = .sign .assignment := hsign
    exact .assignment hsign' ihTarget ihValue

/-- The tokens before and after a sign are those of its two sides. -/
theorem split_at_sign (h : f.WrittenWith ts) (sign : Token) (us : List Token) :
    (ts ++ sign :: us).take f.lexemes.length = ts ∧
      (ts ++ sign :: us).drop (f.lexemes.length + 1) = us := by
  rw [h.length_lexemes]
  refine ⟨List.take_left, ?_⟩
  rw [List.drop_length_add_append, List.drop_one, List.tail_cons]

/-- Every part is written with its own tokens, which stand in a row among those of the whole. -/
theorem of_mem_parts (h : f.WrittenWith ts) {part : Formula × List Token}
    (hpart : part ∈ f.parts ts) : part.1.WrittenWith part.2 ∧ part.2 <:+: ts := by
  have hwhole := h
  induction h with
  | atom _ =>
    obtain rfl := List.mem_singleton.1 hpart
    exact ⟨hwhole, List.infix_rfl⟩
  | @negation sign f ts _ hoperand ih =>
    rcases List.mem_cons.1 hpart with rfl | hpart
    · exact ⟨hwhole, List.infix_rfl⟩
    · obtain ⟨hwritten, hinfix⟩ := ih hpart hoperand
      exact ⟨hwritten, hinfix.trans (List.suffix_cons sign ts).isInfix⟩
  | @binary sign c left right ts us _ hleft hright ihLeft ihRight =>
    obtain ⟨htake, hdrop⟩ := hleft.split_at_sign sign us
    rw [parts, htake, hdrop, List.mem_cons, List.mem_append] at hpart
    rcases hpart with rfl | hpart | hpart
    · exact ⟨hwhole, List.infix_rfl⟩
    · obtain ⟨hwritten, hinfix⟩ := ihLeft hpart hleft
      exact ⟨hwritten, hinfix.trans (List.prefix_append ts _).isInfix⟩
    · obtain ⟨hwritten, hinfix⟩ := ihRight hpart hright
      exact ⟨hwritten, hinfix.trans ⟨ts ++ [sign], [], by simp⟩⟩
  | @grouped opening inner ts closing _ hinner _ ih =>
    rw [parts, List.tail_cons, List.dropLast_concat] at hpart
    rcases List.mem_cons.1 hpart with rfl | hpart
    · exact ⟨hwhole, List.infix_rfl⟩
    · obtain ⟨hwritten, hinfix⟩ := ih hpart hinner
      exact ⟨hwritten, hinfix.trans ⟨[opening], [closing], by simp⟩⟩
  | @assignment sign target value ts us _ htarget hvalue ihTarget ihValue =>
    obtain ⟨htake, hdrop⟩ := htarget.split_at_sign sign us
    rw [parts, htake, hdrop, List.mem_cons, List.mem_append] at hpart
    rcases hpart with rfl | hpart | hpart
    · exact ⟨hwhole, List.infix_rfl⟩
    · obtain ⟨hwritten, hinfix⟩ := ihTarget hpart htarget
      exact ⟨hwritten, hinfix.trans (List.prefix_append ts _).isInfix⟩
    · obtain ⟨hwritten, hinfix⟩ := ihValue hpart hvalue
      exact ⟨hwritten, hinfix.trans ⟨ts ++ [sign], [], by simp⟩⟩

end WrittenWith

end Formula

/-! ## Spans in a row -/

/-- The tokens stand one after the other, each with bytes of its own. -/
structure InRow (ts : List Token) : Prop where
  start_lt_stop : ∀ t ∈ ts, t.span.start < t.span.stop
  pairwise : ts.Pairwise fun t u => t.span.stop ≤ u.span.start

theorem InRow.mono {ts us : List Token} (h : InRow us) (hts : ts <:+: us) : InRow ts where
  start_lt_stop t ht := h.start_lt_stop t (hts.subset ht)
  pairwise := h.pairwise.sublist hts.sublist

theorem inRow_tokens {source : String} (hsize : source.utf8ByteSize < UInt32.size) :
    InRow (tokens source) := by
  obtain ⟨hwithin, hpairwise⟩ := ordered_tokens hsize
  exact ⟨fun t ht => UInt32.lt_iff_toNat_lt.2 (hwithin t ht).start_lt_stop, hpairwise⟩

namespace Formula.WrittenWith

variable {f left right : Formula} {sign : Token} {ts us : List Token}

theorem start_lt_stop (h : f.WrittenWith ts) (hrow : InRow ts) : f.span.start < f.span.stop := by
  obtain ⟨first, last, hfirst, hlast, hspan⟩ := h.exists_ends
  obtain ⟨rest, rfl⟩ := List.head?_eq_some_iff.1 hfirst
  have hlt := hrow.start_lt_stop first List.mem_cons_self
  rw [hspan]
  show first.span.start < last.span.stop
  rcases List.mem_cons.1 (List.mem_of_getLast? hlast) with rfl | hmem
  · exact hlt
  · have hle := (List.pairwise_cons.1 hrow.pairwise).1 last hmem
    have hlt' := hrow.start_lt_stop last (List.mem_cons_of_mem _ hmem)
    exact UInt32.lt_trans (UInt32.lt_of_lt_of_le hlt hle) hlt'

/-- A formula stands after the tokens before its own. -/
theorem stop_le_start (h : f.WrittenWith ts) (hrow : InRow (us ++ ts)) :
    ∀ t ∈ us, t.span.stop ≤ f.span.start := by
  intro t ht
  obtain ⟨first, _, hfirst, -, hspan⟩ := h.exists_ends
  rw [hspan]
  exact (List.pairwise_append.1 hrow.pairwise).2.2 t ht first (List.mem_of_head? hfirst)

/-- A formula stands before the tokens after its own. -/
theorem stop_le_of_mem (h : f.WrittenWith ts) (hrow : InRow (ts ++ us)) :
    ∀ t ∈ us, f.span.stop ≤ t.span.start := by
  intro t ht
  obtain ⟨_, last, -, hlast, hspan⟩ := h.exists_ends
  rw [hspan]
  exact (List.pairwise_append.1 hrow.pairwise).2.2 last (List.mem_of_getLast? hlast) t ht

/-- The two sides of a sign stand from the left end to the right one, the left side first. -/
theorem sides_in_row (hleft : left.WrittenWith ts) (hright : right.WrittenWith us)
    (hrow : InRow (ts ++ sign :: us)) :
    (∀ g ∈ [left, right], left.span.start ≤ g.span.start ∧ g.span.stop ≤ right.span.stop) ∧
      [left, right].Pairwise fun g k => g.span.stop ≤ k.span.start := by
  have hassoc : ts ++ sign :: us = (ts ++ [sign]) ++ us := by simp
  have hl := hleft.start_lt_stop (hrow.mono (List.prefix_append ts _).isInfix)
  have hr := hright.start_lt_stop (hrow.mono ⟨ts ++ [sign], [], by simp⟩)
  have hsign := hrow.start_lt_stop sign (by simp)
  have hbefore := hleft.stop_le_of_mem hrow sign List.mem_cons_self
  have hafter := hright.stop_le_start (hassoc ▸ hrow) sign (by simp)
  have hle : left.span.stop ≤ right.span.start :=
    UInt32.le_trans hbefore (UInt32.le_trans (UInt32.le_of_lt hsign) hafter)
  refine ⟨fun g hg => ?_, by simpa using hle⟩
  rcases List.mem_cons.1 hg with rfl | hg
  · exact ⟨UInt32.le_refl _, UInt32.le_trans hle (UInt32.le_of_lt hr)⟩
  · obtain rfl := List.mem_singleton.1 hg
    exact ⟨UInt32.le_trans (UInt32.le_of_lt hl) hle, UInt32.le_refl _⟩

/-- What a formula is made of stands within it, from left to right. -/
theorem children_in_row (h : f.WrittenWith ts) (hrow : InRow ts) :
    (∀ g ∈ f.children, f.span.start ≤ g.span.start ∧ g.span.stop ≤ f.span.stop) ∧
      f.children.Pairwise fun g k => g.span.stop ≤ k.span.start := by
  cases h with
  | atom _ => exact ⟨nofun, .nil⟩
  | @negation sign operand ts _ hoperand =>
    have hsign := hrow.start_lt_stop sign List.mem_cons_self
    have hsplit : InRow ([sign] ++ ts) := hrow
    have hle := hoperand.stop_le_start hsplit sign List.mem_cons_self
    refine ⟨fun g hg => ?_, List.pairwise_singleton _ _⟩
    obtain rfl := List.mem_singleton.1 hg
    exact ⟨UInt32.le_trans (UInt32.le_of_lt hsign) hle, UInt32.le_refl _⟩
  | binary _ hleft hright => exact hleft.sides_in_row hright hrow
  | @grouped opening inner ts closing _ hinner _ =>
    have hopening := hrow.start_lt_stop opening List.mem_cons_self
    have hclosing := hrow.start_lt_stop closing (by simp)
    have hbefore : InRow ([opening] ++ ts) := hrow.mono ⟨[], [closing], by simp⟩
    have hafter : InRow (ts ++ [closing]) := hrow.mono ⟨[opening], [], by simp⟩
    have hle := hinner.stop_le_start hbefore opening List.mem_cons_self
    have hle' := hinner.stop_le_of_mem hafter closing List.mem_cons_self
    refine ⟨fun g hg => ?_, List.pairwise_singleton _ _⟩
    obtain rfl := List.mem_singleton.1 hg
    exact ⟨UInt32.le_trans (UInt32.le_of_lt hopening) hle,
      UInt32.le_trans hle' (UInt32.le_of_lt hclosing)⟩
  | assignment _ htarget hvalue => exact htarget.sides_in_row hvalue hrow

end Formula.WrittenWith

/-! ## Reading -/

/-- What has been read of the stage before it begins is written with the tokens. -/
def Stage.WrittenWith : Stage → List Token → Prop
  | .whole _, ts => ts = []
  | .tails left _, ts => left.WrittenWith ts

/-- A formula is written with the tokens that reading it has used up. -/
theorem Rules.Reads.exists_writtenWith {rules : Rules} {stage : Stage} {r rest : Reader}
    {f : Formula} (h : rules.Reads stage r f rest) (hproper : ∀ t ∈ r.pending, t.Proper) :
    ∃ ts, r.ReadTo ts rest ∧ ∀ us, stage.WrittenWith us → f.WrittenWith (us ++ ts) := by
  induction h with
  | @name power r t s f rest _ hkind hstep _ ih =>
    obtain ⟨ts, hts, hf⟩ := ih (hstep.proper hproper).2
    refine ⟨[t] ++ ts, hstep.trans hts, fun us hus => ?_⟩
    subst hus
    exact hf [t] (.atom hkind)
  | @negation power r sign s operand u f rest _ hkind hstep _ _ ihOperand ih =>
    have hs := (hstep.proper hproper).2
    obtain ⟨ts, hts, hoperand⟩ := ihOperand hs
    obtain ⟨us, hus, hf⟩ := ih (hts.proper hs).2
    refine ⟨[sign] ++ ts ++ us, (hstep.trans hts).trans hus, fun vs hvs => ?_⟩
    subst hvs
    have hsign := hstep.lexeme_eq hproper hkind (by decide)
    exact hf (sign :: ts) (.negation hsign (hoperand [] rfl))
  | @group power r opening s inner u closing v f rest _ hopening hopen _ hclosing hclose _
      ihInner ih =>
    have hs := (hopen.proper hproper).2
    obtain ⟨ts, hts, hinner⟩ := ihInner hs
    have hu := (hts.proper hs).2
    obtain ⟨us, hus, hf⟩ := ih (hclose.proper hu).2
    refine ⟨[opening] ++ ts ++ [closing] ++ us, ((hopen.trans hts).trans hclose).trans hus,
      fun vs hvs => ?_⟩
    subst hvs
    have hfirst := hopen.lexeme_eq hproper hopening (by decide)
    have hlast := hclose.lexeme_eq hu hclosing (by decide)
    exact hf (opening :: (ts ++ [closing])) (.grouped hfirst (hinner [] rfl) hlast)
  | stop _ => exact ⟨[], .refl _, fun us hus => by rwa [List.append_nil]⟩
  | @connective left power r tighter c sign s right u f rest _ hkind hstep _ _ ihRight ih =>
    have hs := (hstep.proper hproper).2
    obtain ⟨ts, hts, hright⟩ := ihRight hs
    obtain ⟨us, hus, hf⟩ := ih (hts.proper hs).2
    refine ⟨[sign] ++ ts ++ us, (hstep.trans hts).trans hus, fun vs hleft => ?_⟩
    have hsign := hstep.lexeme_eq hproper hkind c.kind_ne_identifier
    have hwhole := hf (vs ++ sign :: ts) (.binary hsign hleft (hright [] rfl))
    rwa [List.append_assoc] at hwhole
  | @assignment left power r tighter sign s value u f rest _ hkind hstep _ _ ihValue ih =>
    have hs := (hstep.proper hproper).2
    obtain ⟨ts, hts, hvalue⟩ := ihValue hs
    obtain ⟨us, hus, hf⟩ := ih (hts.proper hs).2
    refine ⟨[sign] ++ ts ++ us, (hstep.trans hts).trans hus, fun vs htarget => ?_⟩
    have hsign := hstep.lexeme_eq hproper hkind (by decide)
    have hwhole := hf (vs ++ sign :: ts) (.assignment hsign htarget (hvalue [] rfl))
    rwa [List.append_assoc] at hwhole

section

variable {vs : Variables} {source : String} {f : Formula}

/-- A source that is read is written out in its formula, with the spans of its tokens. -/
theorem writtenWith_of_parse (h : (parse vs source).1 = .ok f) : f.WrittenWith (tokens source) := by
  have hreads := parse_eq_ok_iff.1 (Prod.ext h rfl)
  have hproper : ∀ t ∈ (Reader.start vs source).pending, t.Proper :=
    fun t ht => proper_of_mem_tokens ht
  obtain ⟨ts, hts, hwritten⟩ := hreads.exists_writtenWith hproper
  have htokens : tokens source = ts := by simpa [Reader.start] using hts.pending_eq
  rw [htokens]
  exact hwritten [] rfl

/-- Every part of a formula that is read is well formed. -/
theorem wellFormed_of_mem_preorder (h : (parse vs source).1 = .ok f) {g : Formula}
    (hg : g ∈ f.preorder) : g.WellFormed :=
  (((parse_eq_ok_iff.1 (Prod.ext h rfl)).obeys trivial).1.of_mem_preorder hg).wellFormed

/-- A well-formed formula is what a source with its tokens is read as. -/
theorem Formula.WrittenWith.parse_eq (h : f.WrittenWith (tokens source)) (hwell : f.WellFormed)
    (vs : Variables) : (parse vs source).1 = .ok f := by
  have hderives : Derives .assignment ((tokens source).map Token.lexeme) f :=
    derives_iff.2 ⟨hwell, h.lexemes_eq⟩
  obtain ⟨g, hparse, hbare⟩ := hderives.exists_parse vs
  have hok : (parse vs source).1 = .ok g := congrArg Prod.fst hparse
  rw [hok, (writtenWith_of_parse hok).unique h rfl hbare]

end

/-! ## Faithful spans -/

/-- The formula `f`, written with the tokens `ts`, stands in the source where it says. These are
in a row there, its span runs from the first of them to the last, and what it is made of stands
within it from left to right. The slice of the source at its span is read, by itself, as the same
formula, with the offsets counted from where it begins. -/
structure Formula.StandsAt (source : String) (f : Formula) (ts : List Token) : Prop where
  lexemes_eq : f.lexemes = ts.map Token.lexeme
  within_tokens : ts <:+: tokens source
  exists_ends : ∃ first last, ts.head? = some first ∧ ts.getLast? = some last ∧
    f.span = ⟨first.span.start, last.span.stop⟩
  start_lt_stop : f.span.start < f.span.stop
  children_within : ∀ g ∈ f.children, f.span.start ≤ g.span.start ∧ g.span.stop ≤ f.span.stop
  children_in_row : f.children.Pairwise fun g k => g.span.stop ≤ k.span.start
  exists_slice : ∃ text, IsSlice source f.span.start.toNat f.span.stop.toNat text
  parse_slice : ∀ text, IsSlice source f.span.start.toNat f.span.stop.toNat text →
    ∀ vs, (parse vs text).1 = .ok (f.relativeTo f.span.start)

@[simp] theorem Formula.wellFormed_relativeTo (origin : Offset) (f : Formula) :
    (f.relativeTo origin).WellFormed ↔ f.WellFormed := by
  rw [← wellFormed_bare, bare_relativeTo, wellFormed_bare]

/-- A well-formed formula that is written with tokens in a row stands where they do. -/
theorem Formula.WrittenWith.standsAt {source : String} {f : Formula} {ts : List Token}
    (hsize : source.utf8ByteSize < UInt32.size) (h : f.WrittenWith ts) (hwell : f.WellFormed)
    (hts : ts <:+: tokens source) : f.StandsAt source ts := by
  have hrow := (inRow_tokens hsize).mono hts
  obtain ⟨first, last, hfirst, hlast, hspan⟩ := h.exists_ends
  obtain ⟨hwithin, hpairwise⟩ := h.children_in_row hrow
  have ⟨before, after, htokens⟩ := hts
  obtain ⟨text, hslice, hslices⟩ := TruthTable.exists_slice hsize htokens.symm hfirst hlast
  have hstart : f.span.start = first.span.start := by rw [hspan]; rfl
  have hstop : f.span.stop = last.span.stop := by rw [hspan]; rfl
  rw [← hstart, ← hstop] at hslice
  refine ⟨h.lexemes_eq, hts, ⟨first, last, hfirst, hlast, hspan⟩, h.start_lt_stop hrow, hwithin,
    hpairwise, ⟨text, hslice⟩, fun text' hslice' vs => ?_⟩
  obtain rfl := hslice.unique hslice'
  have hwritten := h.relativeTo f.span.start
  rw [hstart, ← hslices] at hwritten
  rw [hstart]
  exact hwritten.parse_eq ((wellFormed_relativeTo _ f).2 hwell) vs

/-- In a source below the limit of offsets, every part of the formula that is read stands where
its span says, with its own tokens. -/
theorem parse_standsAt {vs : Variables} {source : String} {f : Formula}
    (hsize : source.utf8ByteSize < UInt32.size) (h : (parse vs source).1 = .ok f) :
    (f.parts (tokens source)).map Prod.fst = f.preorder ∧
      ∀ part ∈ f.parts (tokens source), part.1.StandsAt source part.2 := by
  refine ⟨f.map_fst_parts _, fun part hpart => ?_⟩
  obtain ⟨hwritten, hinfix⟩ := (writtenWith_of_parse h).of_mem_parts hpart
  have hmem : part.1 ∈ f.preorder := by
    rw [← f.map_fst_parts (tokens source)]
    exact List.mem_map_of_mem hpart
  exact hwritten.standsAt hsize (wellFormed_of_mem_preorder h hmem) hinfix

/-- A group at the end of a chain is read by itself as it is in the chain. -/
theorem parse_standsAt_group :
    ∃ f ts, (parse .empty "p ∧ (q)").1 = .ok f ∧
      (Formula.grouped (.atom "q" ⟨7, 8⟩) ⟨6, 9⟩).StandsAt "p ∧ (q)" ts ∧
      (parse .empty "(q)").1 = .ok (.grouped (.atom "q" ⟨1, 2⟩) ⟨0, 3⟩) := by
  have hoption : (parse .empty "p ∧ (q)").1.toOption = some (.binary .and (.atom "p" ⟨0, 1⟩)
      (.grouped (.atom "q" ⟨7, 8⟩) ⟨6, 9⟩) ⟨0, 9⟩) := by
    decide +kernel
  cases hread : (parse .empty "p ∧ (q)").1 with
  | error error =>
    rw [hread] at hoption
    cases hoption
  | ok f =>
    rw [hread] at hoption
    obtain rfl := Option.some.inj hoption
    obtain ⟨-, hstands⟩ := parse_standsAt (by decide) hread
    have hgroup := hstands (.grouped (.atom "q" ⟨7, 8⟩) ⟨6, 9⟩, _)
      (List.mem_cons_of_mem _ (List.mem_cons_of_mem _ List.mem_cons_self))
    have hslice : IsSlice "p ∧ (q)" 6 9 "(q)" :=
      ⟨"p ∧ ".toList, [], by decide, by decide, by decide⟩
    exact ⟨_, _, rfl, hgroup, hgroup.parse_slice "(q)" hslice .empty⟩

end TruthTable
