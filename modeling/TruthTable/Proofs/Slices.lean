import TruthTable.Proofs.Tiling

/-!
# Slices of a source and their tokens

A slice is the text between two bytes of a source at which characters begin. It may begin
where a token begins and end where a token ends, and then no token is cut: the pieces of a
tiling between the two are a tiling of the slice (`Tiles.middle`). So a stream takes the same
tokens from the slice as from the source, and only counts their bytes from elsewhere
(`exists_slice`).

A source that is cut after some tokens may also go on in another way. The tokens before the
cut stay (`exists_heads`), and where the cut is made after a token, that token at least keeps
its kind and its start, since all that can happen to it is that a name grows.

In a source of less than four gigabytes, offsets are exact, and the tokens stand one after the
other (`ordered_tokens`).
-/

namespace TruthTable

/-- `text` is what stands in `source` from the byte `start` up to the byte `stop`. -/
def IsSlice (source : String) (start stop : Nat) (text : String) : Prop :=
  ∃ before after, source.toList = before ++ text.toList ++ after ∧
    Text.utf8Length before = start ∧ Text.utf8Length (before ++ text.toList) = stop

/-- Two splits of a text at the same byte are the same split. -/
theorem Text.append_inj_of_utf8Length_eq {xs ys xs' ys' : List Char} (h : xs ++ ys = xs' ++ ys')
    (hlength : utf8Length xs = utf8Length xs') : xs = xs' ∧ ys = ys' := by
  induction xs generalizing xs' with
  | nil =>
    cases xs' with
    | nil => exact ⟨rfl, h⟩
    | cons c cs =>
      have := c.utf8Size_pos
      simp only [utf8Length_nil, utf8Length_cons] at hlength
      omega
  | cons c cs ih =>
    cases xs' with
    | nil =>
      have := c.utf8Size_pos
      simp only [utf8Length_nil, utf8Length_cons] at hlength
      omega
    | cons d ds =>
      obtain ⟨rfl, htail⟩ := List.cons.inj h
      simp only [utf8Length_cons] at hlength
      obtain ⟨rfl, hys⟩ := ih htail (by omega)
      exact ⟨rfl, hys⟩

/-- One text stands between two bytes. -/
theorem IsSlice.unique {source text text' : String} {start stop : Nat}
    (h : IsSlice source start stop text) (h' : IsSlice source start stop text') : text = text' := by
  obtain ⟨before, after, hsource, hstart, hstop⟩ := h
  obtain ⟨before', after', hsource', hstart', hstop'⟩ := h'
  have hsplit := hsource.symm.trans hsource'
  obtain ⟨hchars, -⟩ := Text.append_inj_of_utf8Length_eq hsplit (hstop.trans hstop'.symm)
  obtain ⟨-, htext⟩ := Text.append_inj_of_utf8Length_eq hchars (hstart.trans hstart'.symm)
  exact String.toList_inj.1 htext

/-- What stands before a byte of a text. -/
theorem isSlice_head {source : String} {head after : List Char}
    (h : source.toList = head ++ after) :
    IsSlice source 0 (Text.utf8Length head) (String.ofList head) := by
  refine ⟨[], after, ?_, rfl, ?_⟩
  · rw [List.nil_append, String.toList_ofList, h]
  · rw [List.nil_append, String.toList_ofList]

/-! ## Parts of a tiling -/

namespace Tiles

variable {offset : Nat} {text last : List Char} {pieces before after : List Piece}

/-- The pieces at the end of a tiling are a tiling of the end of its text. -/
theorem drop (h : Tiles offset text (before ++ pieces) last) :
    Tiles (offset + Text.utf8Length (Piece.spell before)) (Piece.spell pieces ++ last) pieces
      last := by
  induction before generalizing offset text with
  | nil =>
    have htext : text = Piece.spell pieces ++ last := h.text_eq
    rwa [htext] at h
  | cons p before ih =>
    obtain ⟨rest, rfl, hrest⟩ := h.uncons
    rw [Piece.spell_cons, Text.utf8Length_append, ← Nat.add_assoc]
    exact ih hrest

/-- The pieces at the beginning of a tiling, and a gap after them, are a tiling of their own. -/
theorem take (h : Tiles offset text (pieces ++ after) last) {gap : List Char} (hgap : IsGap gap) :
    Tiles offset (Piece.spell pieces ++ gap) pieces gap where
  text_eq := rfl
  gap p hp := h.gap p (List.mem_append_left _ hp)
  gap_last := hgap
  proper p hp := h.proper p (List.mem_append_left _ hp)
  apart front p q back hsplit := h.apart front p q (back ++ after) (by rw [hsplit]; simp)
  span_eq front p back hsplit := h.span_eq front p (back ++ after) (by rw [hsplit]; simp)

/-- Without the gap before its first token, a tiled text is tiled. -/
theorem trim {p : Piece} (h : Tiles offset text (p :: pieces) last) :
    Tiles (offset + Text.utf8Length p.gap) (p.token.text.toList ++ (Piece.spell pieces ++ last))
      (⟨[], p.token⟩ :: pieces) last := by
  obtain ⟨rest, -, hrest⟩ := h.uncons
  have hspan := h.span_head
  rw [Piece.chars, Text.utf8Length_append, ← Nat.add_assoc] at hspan hrest
  rw [← hrest.text_eq]
  exact cons rfl hrest isGap_nil (h.proper p List.mem_cons_self) h.apart_head hspan

/-- The pieces between others, without the gap before them, are a tiling of what they spell. -/
theorem middle {p : Piece} (h : Tiles offset text (before ++ (p :: pieces) ++ after) last) :
    Tiles (offset + Text.utf8Length (Piece.spell before ++ p.gap))
      (p.token.text.toList ++ Piece.spell pieces) (⟨[], p.token⟩ :: pieces) [] := by
  rw [List.append_assoc] at h
  have hmiddle := (h.drop.take isGap_nil).trim
  rwa [List.append_nil, Nat.add_assoc, ← Text.utf8Length_append] at hmiddle

end Tiles

/-! ## Tokens counted from elsewhere -/

/-- The span with its offsets counted from `origin`. -/
def Span.relativeTo (origin : Offset) (s : Span) : Span := ⟨s.start - origin, s.stop - origin⟩

/-- The token with its offsets counted from `origin`. -/
def Token.relativeTo (origin : Offset) (t : Token) : Token :=
  { t with span := t.span.relativeTo origin }

theorem Span.relativeTo_through (origin : Offset) (first last : Span) :
    (first.through last).relativeTo origin
      = (first.relativeTo origin).through (last.relativeTo origin) := rfl

theorem Span.relativeTo_ofBytes (origin start stop : Nat) :
    (ofBytes (origin + start) (origin + stop)).relativeTo (UInt32.ofNat origin)
      = ofBytes start stop := by
  simp only [ofBytes, relativeTo, UInt32.ofNat_add, Span.mk.injEq]
  constructor
  · rw [UInt32.add_comm, UInt32.add_sub_cancel]
  · rw [UInt32.add_comm, UInt32.add_sub_cancel]

/-- From a text further on in a source, a stream takes the same tokens, counted from elsewhere. -/
theorem TokenStream.map_relativeTo_toList (source source' : String) (origin : Nat)
    (chars : List Char) : ∀ offset,
    (⟨source, origin + offset, chars⟩ : TokenStream).toList.map
        (Token.relativeTo (UInt32.ofNat origin))
      = (⟨source', offset, chars⟩ : TokenStream).toList := by
  induction chars using textInduction with
  | nil =>
    intro offset
    rw [toList_nil, toList_nil, List.map_nil]
  | gap c cs hgap ih =>
    intro offset
    rw [toList_gap source _ hgap, toList_gap source' _ hgap, Nat.add_assoc]
    exact ih _
  | glyph kind c cs hglyph ih =>
    intro offset
    rw [toList_glyph source _ hglyph, toList_glyph source' _ hglyph, List.map_cons,
      Nat.add_assoc, ih, Token.relativeTo, Span.relativeTo_ofBytes]
  | name name cs hne hname hends ih =>
    intro offset
    rw [toList_name source _ hne hname hends, toList_name source' _ hne hname hends,
      List.map_cons, Nat.add_assoc, ih, Token.relativeTo, Span.relativeTo_ofBytes]

/-! ## Where tokens stand -/

/-- The token stands between the bytes `start` and `stop`, and has bytes of its own. -/
structure Token.Within (start stop : Nat) (t : Token) : Prop where
  start_le : start ≤ t.span.start.toNat
  start_lt_stop : t.span.start.toNat < t.span.stop.toNat
  stop_le : t.span.stop.toNat ≤ stop

theorem Token.Proper.utf8Length_pos {t : Token} (h : t.Proper) :
    0 < Text.utf8Length t.text.toList := by
  have hne : t.text.toList ≠ [] := by
    by_cases hkind : t.kind = .identifier
    · exact (h.isName hkind).toList.1
    · obtain ⟨c, -, htext⟩ := h.exists_glyph hkind
      rw [htext, String.toList_ofList]
      exact List.cons_ne_nil c []
  obtain ⟨c, cs, hcs⟩ := List.exists_cons_of_ne_nil hne
  have := c.utf8Size_pos
  rw [hcs, Text.utf8Length_cons]
  omega

namespace Tiles

variable {offset : Nat} {text last : List Char} {pieces : List Piece}

/-- In a text below the limit of offsets, a token begins after its gap and ends where its piece
ends. -/
theorem offsets_eq {before after : List Piece} {p : Piece}
    (h : Tiles offset text (before ++ p :: after) last)
    (hsize : offset + Text.utf8Length text < UInt32.size) :
    p.token.span.start.toNat = offset + Text.utf8Length (Piece.spell before ++ p.gap) ∧
      p.token.span.stop.toNat = offset + Text.utf8Length (Piece.spell before ++ p.chars) := by
  have hspan := h.span_eq before p after rfl
  rw [hspan, Span.ofBytes]
  have hlength := congrArg Text.utf8Length h.text_eq
  simp only [Piece.spell, List.flatMap_append, List.flatMap_cons, Piece.chars,
    Text.utf8Length_append] at hlength ⊢
  constructor
  · exact toNat_ofNat_of_lt (by omega)
  · exact toNat_ofNat_of_lt (by omega)

/-- The tokens of a tiling stand in its text, one after the other. -/
theorem ordered (h : Tiles offset text pieces last)
    (hsize : offset + Text.utf8Length text < UInt32.size) :
    (∀ p ∈ pieces, p.token.Within offset (offset + Text.utf8Length text)) ∧
      pieces.Pairwise fun p q => p.token.span.stop ≤ q.token.span.start := by
  induction pieces generalizing offset text with
  | nil => exact ⟨nofun, .nil⟩
  | cons p pieces ih =>
    have hpos := (h.proper p List.mem_cons_self).utf8Length_pos
    have hsplit : Tiles offset text ([] ++ p :: pieces) last := h
    have hoffsets := hsplit.offsets_eq hsize
    obtain ⟨rest, rfl, hrest⟩ := h.uncons
    rw [Text.utf8Length_append] at hsize ⊢
    obtain ⟨hwithin, hpairwise⟩ := ih hrest (by omega)
    simp only [Piece.spell, List.flatMap_nil, List.nil_append] at hoffsets
    obtain ⟨hstart, hstop⟩ := hoffsets
    have hchars : Text.utf8Length p.chars
        = Text.utf8Length p.gap + Text.utf8Length p.token.text.toList :=
      Text.utf8Length_append _ _
    refine ⟨List.forall_mem_cons.2 ⟨⟨by omega, by omega, by omega⟩, fun q hq => ?_⟩, ?_⟩
    · obtain ⟨hle, hlt, hle'⟩ := hwithin q hq
      exact ⟨by omega, hlt, by omega⟩
    · refine List.pairwise_cons.2 ⟨fun q hq => ?_, hpairwise⟩
      have hle := (hwithin q hq).start_le
      rw [UInt32.le_iff_toNat_le]
      omega

end Tiles

/-- The tokens of a source stand in it, one after the other. -/
theorem ordered_tokens {source : String} (hsize : source.utf8ByteSize < UInt32.size) :
    (∀ t ∈ tokens source, t.Within 0 source.utf8ByteSize) ∧
      (tokens source).Pairwise fun t u => t.span.stop ≤ u.span.start := by
  obtain ⟨pieces, last, htiles⟩ := exists_tiles source.toList 0
  rw [Text.utf8ByteSize_eq, ← Nat.zero_add (Text.utf8Length _)] at hsize ⊢
  obtain ⟨hwithin, hpairwise⟩ := htiles.ordered hsize
  rw [tokens, TokenStream.start, htiles.toList_eq]
  exact ⟨List.forall_mem_map.2 hwithin, List.pairwise_map.2 hpairwise⟩

/-! ## The tokens of a slice -/

/-- A stream that begins with the text of a proper token begins with a token of its kind; a name
may go on. -/
theorem TokenStream.exists_toList_cons (source : String) (offset : Nat) {t : Token} (h : t.Proper)
    (k : List Char) :
    ∃ u us, (⟨source, offset, t.text.toList ++ k⟩ : TokenStream).toList = u :: us ∧
      u.kind = t.kind ∧ u.span.start = UInt32.ofNat offset := by
  by_cases hkind : t.kind = .identifier
  · obtain ⟨hne, hchars⟩ := (h.isName hkind).toList
    -- The name goes on as far as name characters do.
    have hsplit : t.text.toList ++ k = (t.text.toList ++ k.takeWhile isNameChar)
        ++ k.drop (k.takeWhile isNameChar).length := by
      rw [List.append_assoc, ← eq_takeWhile_append_drop]
    have hname : ∀ c ∈ t.text.toList ++ k.takeWhile isNameChar, isNameChar c = true := by
      intro c hc
      rcases List.mem_append.1 hc with hc | hc
      · exact hchars c hc
      · exact List.all_eq_true.1 List.all_takeWhile c hc
    have hlonger : t.text.toList ++ k.takeWhile isNameChar ≠ [] := by simp [hne]
    rw [hsplit, toList_name source offset hlonger hname (nameEnds_drop_takeWhile k)]
    exact ⟨_, _, rfl, hkind.symm, rfl⟩
  · obtain ⟨c, hc, htext⟩ := h.exists_glyph hkind
    rw [htext, String.toList_ofList, List.singleton_append, toList_glyph source offset hc]
    exact ⟨_, _, rfl, rfl, rfl⟩

section

variable {source : String} {before after : List Token}

/-- A source whose tokens are split is tiled by pieces that are split there. -/
theorem exists_tiles_append {ts : List Token} (h : tokens source = before ++ ts) :
    ∃ bs ps last, Tiles 0 source.toList (bs ++ ps) last ∧ bs.map Piece.token = before ∧
      ps.map Piece.token = ts := by
  obtain ⟨pieces, last, htiles⟩ := exists_tiles source.toList 0
  have hpieces : pieces.map Piece.token = before ++ ts := (htiles.toList_eq source).symm.trans h
  obtain ⟨bs, ps, rfl, hbs, hps⟩ := List.map_eq_append_iff.1 hpieces
  exact ⟨bs, ps, last, htiles, hbs, hps⟩

namespace Tiles

variable {last : List Char} {bs ms as : List Piece} {p q : Piece}

/-- From the first token of some pieces to their last one stands what they spell, without the gap
before it. -/
theorem isSlice_middle (h : Tiles 0 source.toList (bs ++ (p :: ms) ++ as) last)
    (hsize : source.utf8ByteSize < UInt32.size) (hq : (p :: ms).getLast? = some q) :
    IsSlice source p.token.span.start.toNat q.token.span.stop.toNat
      (String.ofList (p.token.text.toList ++ Piece.spell ms)) := by
  obtain ⟨fs, hfs⟩ := List.getLast?_eq_some_iff.1 hq
  rw [Text.utf8ByteSize_eq, ← Nat.zero_add (Text.utf8Length _)] at hsize
  have hfirst : bs ++ (p :: ms) ++ as = bs ++ p :: (ms ++ as) := by simp
  have hlast : bs ++ (p :: ms) ++ as = (bs ++ fs) ++ q :: as := by rw [hfs]; simp
  obtain ⟨hstart, -⟩ := (hfirst ▸ h).offsets_eq hsize
  obtain ⟨-, hstop⟩ := (hlast ▸ h).offsets_eq hsize
  have hspell : Piece.spell (bs ++ fs) ++ q.chars = Piece.spell bs ++ Piece.spell (p :: ms) := by
    rw [hfs]
    simp [Piece.spell]
  rw [hspell, Nat.zero_add] at hstop
  rw [Nat.zero_add] at hstart
  refine ⟨Piece.spell bs ++ p.gap, Piece.spell as ++ last, ?_, hstart.symm, ?_⟩
  · rw [h.text_eq, String.toList_ofList]
    simp [Piece.spell, Piece.chars]
  · rw [hstop, String.toList_ofList, Piece.spell_cons, Piece.chars]
    simp only [List.append_assoc]

/-- What some pieces spell, without the gap before it, falls into their tokens, counted from where
the first of them begins. -/
theorem tokens_middle (h : Tiles 0 source.toList (bs ++ (p :: ms) ++ as) last) :
    tokens (String.ofList (p.token.text.toList ++ Piece.spell ms))
      = ((p :: ms).map Piece.token).map (Token.relativeTo p.token.span.start) := by
  have htokens := h.middle.toList_eq source
  have hspan := h.span_eq bs p (ms ++ as) (by simp)
  rw [Nat.zero_add] at hspan
  have horigin : p.token.span.start = UInt32.ofNat (Text.utf8Length (Piece.spell bs ++ p.gap)) := by
    rw [hspan]
    rfl
  rw [Nat.zero_add, ← Nat.add_zero (Text.utf8Length _)] at htokens
  rw [horigin, tokens, TokenStream.start, String.toList_ofList,
    ← TokenStream.map_relativeTo_toList source, htokens]
  rfl

end Tiles

/-- From the first to the last of some tokens in a row stands a slice that falls into these
tokens, counted from where the slice begins. -/
theorem exists_slice (hsize : source.utf8ByteSize < UInt32.size) {ts : List Token}
    (h : tokens source = before ++ ts ++ after) {first last : Token}
    (hfirst : ts.head? = some first) (hlast : ts.getLast? = some last) :
    ∃ text, IsSlice source first.span.start.toNat last.span.stop.toNat text ∧
      tokens text = ts.map (Token.relativeTo first.span.start) := by
  rw [List.append_assoc] at h
  obtain ⟨bs, ps, gap, htiles, -, hps⟩ := exists_tiles_append h
  obtain ⟨ms, as, rfl, rfl, -⟩ := List.map_eq_append_iff.1 hps
  rw [List.head?_map, Option.map_eq_some_iff] at hfirst
  obtain ⟨p, hp, rfl⟩ := hfirst
  obtain ⟨ms', rfl⟩ := List.head?_eq_some_iff.1 hp
  rw [List.getLast?_map, Option.map_eq_some_iff] at hlast
  obtain ⟨q, hq, rfl⟩ := hlast
  rw [← List.append_assoc] at htiles
  exact ⟨_, htiles.isSlice_middle hsize hq, htiles.tokens_middle⟩

/-- A tiled text keeps its tokens whatever follows it, if a name at its very end does not go on
into that. -/
theorem Tiles.tokens_append {text last : List Char} {pieces : List Piece}
    (h : Tiles 0 text pieces last) (w : String)
    (hw : last = [] → ∀ p ∈ pieces.getLast?, p.token.kind = .identifier → NameEnds w.toList) :
    tokens (String.ofList text ++ w) = pieces.map Piece.token
      ++ (⟨String.ofList text ++ w, Text.utf8Length text, w.toList⟩ : TokenStream).toList := by
  rw [tokens, TokenStream.start, String.toList_append, String.toList_ofList, h.toList_append _ hw,
    Nat.zero_add]

/-- Two names in a row have a gap between them, so what is spelled without a gap after a name is
no name. -/
theorem Tiles.nameEnds_text {offset : Nat} {text last : List Char} {bs as : List Piece}
    {p q : Piece} (h : Tiles offset text (bs ++ p :: as) last) (hgap : p.gap = [])
    (hq : q ∈ bs.getLast?) (hname : q.token.kind = .identifier) (k : List Char) :
    NameEnds (p.token.text.toList ++ k) := by
  obtain ⟨fs, rfl⟩ := List.getLast?_eq_some_iff.1 hq
  have hapart : q.Apart p := h.apart fs q p as (by simp)
  have hkind : p.token.kind ≠ .identifier := fun hkind => hapart hname hkind hgap
  have hproper := h.proper p (List.mem_append_right _ List.mem_cons_self)
  obtain ⟨c, hc, htext⟩ := hproper.exists_glyph hkind
  rw [htext, String.toList_ofList]
  exact nameEnds_cons (isNameChar_of_glyph? hc)

/-- Before a token stands a text that falls into the tokens before it. The text up to the end of
the token falls into these and a token of its kind at its start, whatever follows. -/
theorem exists_heads (hsize : source.utf8ByteSize < UInt32.size) {t : Token}
    (h : tokens source = before ++ t :: after) :
    ∃ head, IsSlice source 0 t.span.start.toNat head ∧
      IsSlice source 0 t.span.stop.toNat (head ++ t.text) ∧
      (∀ w : String, NameEnds w.toList →
        ∃ ws, tokens (head ++ w) = before ++ ws ∧ ws.map Token.lexeme = lexemesOf w.toList) ∧
      ∀ w : String, ∃ u us, tokens (head ++ t.text ++ w) = before ++ u :: us ∧ u.kind = t.kind ∧
        u.span.start = t.span.start := by
  obtain ⟨bs, ps, gap, htiles, rfl, hps⟩ := exists_tiles_append h
  obtain ⟨p, as, rfl, rfl, -⟩ := List.map_eq_cons_iff.1 hps
  rw [Text.utf8ByteSize_eq, ← Nat.zero_add (Text.utf8Length _)] at hsize
  obtain ⟨hstart, hstop⟩ := htiles.offsets_eq hsize
  have hspan := htiles.span_eq bs p as rfl
  rw [Nat.zero_add] at hstart hstop hspan
  have hproper := htiles.proper p (List.mem_append_right _ List.mem_cons_self)
  have hhead := htiles.take (htiles.gap p (List.mem_append_right _ List.mem_cons_self))
  have hsource : source.toList
      = (Piece.spell bs ++ p.gap) ++ (p.token.text.toList ++ (Piece.spell as ++ gap)) := by
    rw [htiles.text_eq]
    simp [Piece.spell, Piece.chars]
  refine ⟨String.ofList (Piece.spell bs ++ p.gap), ?_, ?_, fun w hw => ?_, fun w => ?_⟩
  · rw [hstart]
    exact isSlice_head hsource
  · rw [hstop, Piece.chars, ← List.append_assoc]
    rw [← List.append_assoc] at hsource
    have hslice := isSlice_head hsource
    rwa [String.ofList_append, String.ofList_toList] at hslice
  · exact ⟨_, hhead.tokens_append w fun _ _ _ _ => hw, map_lexeme_toList _ _ _⟩
  · have htokens := hhead.tokens_append (p.token.text ++ w) fun hnil q hq hname => by
      rw [String.toList_append]
      exact htiles.nameEnds_text hnil hq hname w.toList
    rw [String.append_assoc, htokens, String.toList_append]
    obtain ⟨u, us, hus, hkind, hu⟩ := TokenStream.exists_toList_cons _ _ hproper w.toList
    exact ⟨u, us, by rw [hus], hkind, hu.trans (by rw [hspan]; rfl)⟩

/-- A source keeps its tokens when something is added to it that no name goes on into. -/
theorem exists_tokens_append (source : String) {w : String} (hw : NameEnds w.toList) :
    ∃ ws, tokens (source ++ w) = tokens source ++ ws ∧
      ws.map Token.lexeme = lexemesOf w.toList := by
  obtain ⟨pieces, last, htiles⟩ := exists_tiles source.toList 0
  have htokens := htiles.tokens_append w fun _ _ _ _ => hw
  rw [String.ofList_toList, ← htiles.toList_eq source] at htokens
  exact ⟨_, htokens, map_lexeme_toList _ _ _⟩

end

end TruthTable
