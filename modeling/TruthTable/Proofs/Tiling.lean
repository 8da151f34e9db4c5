import TruthTable.Proofs.Patterns
import TruthTable.Variables

/-!
# A text as gaps and tokens

A `Piece` is a token with the gap before it. `Tiles` says that a text is made of pieces, one
after the other, and a last gap: gaps hold nothing but gap characters, every token has the
text that its kind asks for and its own bytes for its span, and two names in a row have a
gap between them.

These conditions leave no choice. Where a piece begins with a gap character, the gap goes on
as long as it can, since no token begins with one; and a name ends where its piece ends,
since what follows it is a gap, a sign or the end (`Tiles.nameEnds`). So the tokens of a
tiling are those that the stream takes (`Tiles.toList_eq`), and since every text has a tiling
(`exists_tiles`), no character of it is left out.

Main statement: `tokenize_eq_iff_tiles`.
-/

namespace TruthTable

/-- The characters may stand between two tokens. -/
def IsGap (chars : List Char) : Prop := ∀ c ∈ chars, c ∈ gapChars

theorem isGap_nil : IsGap [] := by
  intro c hc
  cases hc

theorem isGap_cons {c : Char} {cs : List Char} (h : isGap c = true) (hcs : IsGap cs) :
    IsGap (c :: cs) := by
  intro d hd
  rcases List.mem_cons.1 hd with rfl | hd
  · exact isGap_iff.1 h
  · exact hcs d hd

/-- No name goes on into a gap. -/
theorem IsGap.nameEnds {gap : List Char} (h : IsGap gap) {k : List Char}
    (hk : gap = [] → NameEnds k) : NameEnds (gap ++ k) := by
  cases gap with
  | nil => exact hk rfl
  | cons c cs =>
    have hc : isGap c = true := isGap_iff.2 (h c List.mem_cons_self)
    exact nameEnds_cons (by rw [isNameChar, hc]; rfl)

/-! ## Pieces -/

/-- A token and the gap before it. -/
structure Piece where
  gap : List Char
  token : Token

namespace Piece

/-- The characters of the gap and of the token. -/
def chars (p : Piece) : List Char := p.gap ++ p.token.text.toList

/-- The characters of pieces one after the other. -/
def spell (pieces : List Piece) : List Char := pieces.flatMap chars

theorem spell_cons (p : Piece) (pieces : List Piece) :
    spell (p :: pieces) = p.chars ++ spell pieces := List.flatMap_cons

/-- If both tokens are names, a gap stands between them. -/
def Apart (p q : Piece) : Prop :=
  p.token.kind = .identifier → q.token.kind = .identifier → q.gap ≠ []

end Piece

/-- The text that begins at the byte `offset` is made of the pieces and the gap `last`. -/
structure Tiles (offset : Nat) (text : List Char) (pieces : List Piece) (last : List Char) :
    Prop where
  text_eq : text = Piece.spell pieces ++ last
  gap : ∀ p ∈ pieces, IsGap p.gap
  gap_last : IsGap last
  proper : ∀ p ∈ pieces, p.token.Proper
  apart : ∀ before p q after, pieces = before ++ p :: q :: after → p.Apart q
  /-- The span of a token is that of its own bytes. -/
  span_eq : ∀ before p after, pieces = before ++ p :: after →
    p.token.span = Span.ofBytes (offset + Text.utf8Length (Piece.spell before ++ p.gap))
      (offset + Text.utf8Length (Piece.spell before ++ p.chars))

namespace Tiles

variable {offset : Nat} {text last : List Char} {pieces : List Piece}

theorem of_gap {gap : List Char} (h : IsGap gap) : Tiles offset gap [] gap where
  text_eq := rfl
  gap := nofun
  gap_last := h
  proper := nofun
  apart before p q after h := by simp at h
  span_eq before p after h := by simp at h

/-- What is left after the first piece is tiled by the other pieces. -/
theorem uncons {p : Piece} (h : Tiles offset text (p :: pieces) last) :
    ∃ rest, text = p.chars ++ rest ∧
      Tiles (offset + Text.utf8Length p.chars) rest pieces last := by
  refine ⟨Piece.spell pieces ++ last, ?_, rfl, ?_, h.gap_last, ?_, ?_, ?_⟩
  · rw [h.text_eq, Piece.spell_cons, List.append_assoc]
  · exact fun q hq => h.gap q (List.mem_cons_of_mem _ hq)
  · exact fun q hq => h.proper q (List.mem_cons_of_mem _ hq)
  · exact fun before q q' after hsplit => h.apart (p :: before) q q' after (by rw [hsplit]; rfl)
  · intro before q after hsplit
    have hspan := h.span_eq (p :: before) q after (by rw [hsplit]; rfl)
    rwa [Piece.spell_cons, List.append_assoc, List.append_assoc, Text.utf8Length_append,
      Text.utf8Length_append p.chars, ← Nat.add_assoc, ← Nat.add_assoc] at hspan

/-- The second piece stands apart from the first. -/
theorem apart_head {p : Piece} (h : Tiles offset text (p :: pieces) last) :
    ∀ q ∈ pieces.head?, p.Apart q := by
  intro q hq
  cases pieces with
  | nil => cases hq
  | cons q' pieces =>
    cases hq
    exact h.apart [] p q pieces rfl

theorem span_head {p : Piece} (h : Tiles offset text (p :: pieces) last) :
    p.token.span
      = Span.ofBytes (offset + Text.utf8Length p.gap) (offset + Text.utf8Length p.chars) :=
  h.span_eq [] p pieces rfl

/-- One more piece before a tiling. -/
theorem cons {p : Piece} {rest : List Char} (htext : text = p.chars ++ rest)
    (h : Tiles (offset + Text.utf8Length p.chars) rest pieces last) (hgap : IsGap p.gap)
    (hproper : p.token.Proper) (hapart : ∀ q ∈ pieces.head?, p.Apart q)
    (hspan : p.token.span
      = Span.ofBytes (offset + Text.utf8Length p.gap) (offset + Text.utf8Length p.chars)) :
    Tiles offset text (p :: pieces) last where
  text_eq := by rw [htext, h.text_eq, Piece.spell_cons, List.append_assoc]
  gap := List.forall_mem_cons.2 ⟨hgap, h.gap⟩
  gap_last := h.gap_last
  proper := List.forall_mem_cons.2 ⟨hproper, h.proper⟩
  apart before q q' after hsplit := by
    cases before with
    | nil =>
      obtain ⟨rfl, rfl⟩ := List.cons.inj hsplit
      exact hapart q' rfl
    | cons p' before => exact h.apart before q q' after (List.cons.inj hsplit).2
  span_eq before q after hsplit := by
    cases before with
    | nil =>
      obtain ⟨rfl, -⟩ := List.cons.inj hsplit
      exact hspan
    | cons p' before =>
      obtain ⟨rfl, htail⟩ := List.cons.inj hsplit
      rw [h.span_eq before q after htail, Piece.spell_cons, List.append_assoc, List.append_assoc,
        Text.utf8Length_append p.chars, Text.utf8Length_append p.chars, Nat.add_assoc,
        Nat.add_assoc]

/-- No name goes on into a tiled text whose first token, if it is a name, has a gap before
it, whatever follows the text; without tokens and gap the text is nothing but what follows. -/
theorem nameEnds (h : Tiles offset text pieces last) {k : List Char}
    (hfirst : ∀ q ∈ pieces.head?, q.token.kind = .identifier → q.gap ≠ [])
    (hk : pieces = [] → last = [] → NameEnds k) : NameEnds (text ++ k) := by
  cases pieces with
  | nil =>
    have htext : text = last := h.text_eq
    rw [htext]
    exact h.gap_last.nameEnds (hk rfl)
  | cons p pieces =>
    rw [h.text_eq, Piece.spell_cons, Piece.chars]
    simp only [List.append_assoc]
    refine (h.gap p List.mem_cons_self).nameEnds fun hnil => ?_
    have hkind : p.token.kind ≠ .identifier := fun hkind => hfirst p rfl hkind hnil
    obtain ⟨c, hc, htext⟩ := (h.proper p List.mem_cons_self).exists_glyph hkind
    rw [htext, String.toList_ofList]
    exact nameEnds_cons (isNameChar_of_glyph? hc)

/-- Where no name goes on into a tiled text, its first token, if it is a name, has a gap before
it. -/
theorem gap_ne_nil (h : Tiles offset text pieces last) (hends : NameEnds text) :
    ∀ q ∈ pieces.head?, q.token.kind = .identifier → q.gap ≠ [] := by
  intro q hq hkind hnil
  cases pieces with
  | nil => cases hq
  | cons q' pieces =>
    cases hq
    obtain ⟨hne, hchars⟩ := ((h.proper q List.mem_cons_self).isName hkind).toList
    obtain ⟨c, cs, hname⟩ := List.exists_cons_of_ne_nil hne
    have htext : text = c :: (cs ++ Piece.spell pieces ++ last) := by
      rw [h.text_eq, Piece.spell_cons, Piece.chars, hnil, hname]
      rfl
    have hc : isNameChar c = true := hchars c (by rw [hname]; exact List.mem_cons_self)
    have hstop : isNameChar c = false := hends c (by rw [htext]; rfl)
    rw [hc] at hstop
    cases hstop

end Tiles

/-! ## Every text has a tiling -/

section

variable {offset : Nat} {text last : List Char} {pieces : List Piece}

/-- With a gap character before it, a tiled text is tiled: the first gap is longer. -/
theorem Tiles.exists_of_gap {c : Char} (hc : isGap c = true)
    (h : Tiles (offset + c.utf8Size) text pieces last) :
    ∃ pieces' last', Tiles offset (c :: text) pieces' last' := by
  cases pieces with
  | nil =>
    have htext : text = last := h.text_eq
    rw [htext]
    exact ⟨[], c :: last, of_gap (isGap_cons hc h.gap_last)⟩
  | cons p pieces =>
    obtain ⟨rest, rfl, hrest⟩ := h.uncons
    have hspan := h.span_head
    rw [Nat.add_assoc, Nat.add_assoc] at hspan
    rw [Nat.add_assoc] at hrest
    have hgap : IsGap (c :: p.gap) := isGap_cons hc (h.gap p List.mem_cons_self)
    exact ⟨⟨c :: p.gap, p.token⟩ :: pieces, last,
      cons rfl hrest hgap (h.proper p List.mem_cons_self) h.apart_head hspan⟩

/-- With a token before it that no name follows directly, a tiled text is tiled. -/
theorem Tiles.exists_of_token {kind : Kind} {chars : List Char}
    (hproper : (⟨kind, String.ofList chars,
      Span.ofBytes offset (offset + Text.utf8Length chars)⟩ : Token).Proper)
    (hends : kind = .identifier → NameEnds text)
    (h : Tiles (offset + Text.utf8Length chars) text pieces last) :
    ∃ pieces' last', Tiles offset (chars ++ text) pieces' last' := by
  generalize htoken : (⟨kind, String.ofList chars,
    Span.ofBytes offset (offset + Text.utf8Length chars)⟩ : Token) = t at hproper
  have hkind : t.kind = kind := by rw [← htoken]
  have hspan : t.span = Span.ofBytes offset (offset + Text.utf8Length chars) := by rw [← htoken]
  have hchars : (⟨[], t⟩ : Piece).chars = chars := by
    rw [Piece.chars, ← htoken, List.nil_append, String.toList_ofList]
  have hapart : ∀ q ∈ pieces.head?, (⟨[], t⟩ : Piece).Apart q := fun q hq hname =>
    h.gap_ne_nil (hends (hkind.symm.trans hname)) q hq
  rw [← hchars] at h hspan ⊢
  exact ⟨⟨[], t⟩ :: pieces, last, cons rfl h isGap_nil hproper hapart hspan⟩

end

theorem exists_tiles (text : List Char) : ∀ offset, ∃ pieces last, Tiles offset text pieces last := by
  induction text using textInduction with
  | nil => exact fun offset => ⟨[], [], .of_gap isGap_nil⟩
  | gap c cs hgap ih =>
    intro offset
    obtain ⟨pieces, last, h⟩ := ih (offset + c.utf8Size)
    exact h.exists_of_gap hgap
  | glyph kind c cs hglyph ih =>
    intro offset
    obtain ⟨pieces, last, h⟩ := ih (offset + Text.utf8Length [c])
    exact h.exists_of_token (Token.proper_glyph hglyph _)
      fun hname => absurd hname (Kind.ne_identifier_of_glyph? hglyph)
  | name name cs hne hname hends ih =>
    intro offset
    obtain ⟨pieces, last, h⟩ := ih (offset + Text.utf8Length name)
    exact h.exists_of_token (Token.proper_name hne hname _) fun _ => hends

/-! ## The tokens of a tiling -/

namespace TokenStream

/-- A gap is passed over. -/
theorem toList_gap_append (source : String) {gap : List Char} (h : IsGap gap) (k : List Char) :
    ∀ offset, (⟨source, offset, gap ++ k⟩ : TokenStream).toList
      = (⟨source, offset + Text.utf8Length gap, k⟩ : TokenStream).toList := by
  induction gap with
  | nil => exact fun offset => rfl
  | cons c cs ih =>
    intro offset
    have hc : isGap c = true := isGap_iff.2 (h c List.mem_cons_self)
    rw [List.cons_append, toList_gap source offset hc,
      ih fun d hd => h d (List.mem_cons_of_mem _ hd), Text.utf8Length_cons, Nat.add_assoc]

/-- A proper token is taken as a whole where no name goes on after it. -/
theorem toList_proper (source : String) (offset : Nat) {t : Token} (h : t.Proper)
    (hspan : t.span = Span.ofBytes offset (offset + Text.utf8Length t.text.toList))
    {k : List Char} (hends : t.kind = .identifier → NameEnds k) :
    (⟨source, offset, t.text.toList ++ k⟩ : TokenStream).toList
      = t :: (⟨source, offset + Text.utf8Length t.text.toList, k⟩ : TokenStream).toList := by
  obtain ⟨kind, text, span⟩ := t
  dsimp only at hspan hends ⊢
  subst hspan
  by_cases hkind : kind = .identifier
  · subst hkind
    obtain ⟨hne, hchars⟩ := (h.isName rfl).toList
    rw [toList_name source offset hne hchars (hends rfl), String.ofList_toList]
  · obtain ⟨c, hc, htext⟩ := h.exists_glyph hkind
    dsimp only at hc htext
    subst htext
    rw [String.toList_ofList, List.singleton_append, toList_glyph source offset hc]
    rfl

/-- A stream ends only where nothing but a gap is left. -/
theorem next?_eq_none_iff {s : TokenStream} : s.next? = none ↔ IsGap s.rest := by
  rw [next?, Option.map_eq_none_iff, lexeme?_eq_none_iff, skipGap, skip]
  have hsplit := eq_takeWhile_append_drop isGap s.rest
  constructor
  · intro hnil c hc
    dsimp only at hnil
    rw [hsplit, hnil, List.append_nil] at hc
    exact isGap_iff.1 (List.all_eq_true.1 List.all_takeWhile c hc)
  · intro hgap
    have hall : (s.rest ++ []).takeWhile isGap = s.rest ++ [].takeWhile isGap :=
      List.takeWhile_append_of_pos fun c hc => isGap_iff.2 (hgap c hc)
    rw [List.append_nil, List.takeWhile_nil, List.append_nil] at hall
    show s.rest.drop (s.rest.takeWhile isGap).length = []
    rw [hall, List.drop_length]

end TokenStream

namespace Tiles

variable {offset : Nat} {text last : List Char} {pieces : List Piece}

/-- A stream takes the tokens of a tiling, and then those of what follows it, if a name at the
very end of the tiling does not go on into that. -/
theorem toList_append (h : Tiles offset text pieces last) (source : String) {k : List Char}
    (hk : last = [] → ∀ p ∈ pieces.getLast?, p.token.kind = .identifier → NameEnds k) :
    (⟨source, offset, text ++ k⟩ : TokenStream).toList = pieces.map Piece.token
      ++ (⟨source, offset + Text.utf8Length text, k⟩ : TokenStream).toList := by
  induction pieces generalizing offset text with
  | nil =>
    have htext : text = last := h.text_eq
    rw [htext]
    exact TokenStream.toList_gap_append source h.gap_last k offset
  | cons p pieces ih =>
    obtain ⟨rest, rfl, hrest⟩ := h.uncons
    have hspan := h.span_head
    rw [Piece.chars, Text.utf8Length_append, ← Nat.add_assoc] at hspan hrest
    -- A name ends here, since the next token is no name unless it has a gap before it.
    have hends : p.token.kind = .identifier → NameEnds (rest ++ k) := by
      intro hname
      refine hrest.nameEnds (fun q hq => h.apart_head q hq hname) fun hnil hlast => ?_
      subst hnil
      exact hk hlast p rfl hname
    have hlater := ih hrest fun hlast q hq =>
      hk hlast q (by rw [List.getLast?_cons, Option.mem_def.1 hq]; rfl)
    rw [Piece.chars, List.append_assoc, List.append_assoc,
      TokenStream.toList_gap_append source (h.gap p List.mem_cons_self),
      TokenStream.toList_proper source _ (h.proper p List.mem_cons_self) hspan hends, hlater]
    simp only [List.map_cons, List.cons_append, Text.utf8Length_append, Nat.add_assoc]

/-- The tokens of a tiling are those that a stream takes from the text. -/
theorem toList_eq (h : Tiles offset text pieces last) (source : String) :
    (⟨source, offset, text⟩ : TokenStream).toList = pieces.map Piece.token := by
  have happend := h.toList_append source (k := []) fun _ _ _ _ => nameEnds_nil
  rwa [List.append_nil, TokenStream.toList_nil, List.append_nil] at happend

end Tiles

/-- The tokens of a source are the only ones that, with gaps before, between and after them, make
up the source: gaps hold gap characters, every token has the text of its kind and the span
of its bytes, and names in a row have a gap between them. A stream of tokens ends only where
nothing but a gap is left. It takes the tokens that scanning by patterns finds, and that stops
nowhere before the end for want of a pattern. -/
theorem tokenize_eq_iff_tiles (vs : Variables) (source : String) :
    (∀ ts, (tokenize vs source).1 = ts ↔
      ∃ pieces last, Tiles 0 source.toList pieces last ∧ ts = pieces.map Piece.token) ∧
    (∀ s : TokenStream, s.next? = none ↔ IsGap s.rest) ∧
    (∀ s : TokenStream, s.scan = s.next?) ∧
    ∀ text, firstMatch? text = none ↔ text = [] := by
  refine ⟨fun ts => ⟨?_, ?_⟩, fun s => TokenStream.next?_eq_none_iff, TokenStream.scan_eq_next?,
    fun text => firstMatch?_eq_none_iff⟩
  · intro h
    obtain ⟨pieces, last, htiles⟩ := exists_tiles source.toList 0
    exact ⟨pieces, last, htiles, h.symm.trans (htiles.toList_eq source)⟩
  · intro h
    obtain ⟨pieces, last, htiles, rfl⟩ := h
    exact htiles.toList_eq source

end TruthTable
