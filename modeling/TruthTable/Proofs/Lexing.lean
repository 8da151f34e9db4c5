import TruthTable.Token.Stream

/-!
# How a text falls into tokens

A text begins with a gap, with a glyph, or with a name that is followed by something
else, and a stream of tokens treats the three in turn: it passes over a gap character
(`toList_gap`), takes a glyph as a sign (`toList_glyph`), and takes a whole name
(`toList_name`). `textInduction` is induction over a text along that split.

A *lexeme* is what a token says apart from its place: its kind and its text. The tokens
of a text are *proper* (`proper_of_mem_tokens`): a sign has its own glyph for text, and
a name is one in the sense of `IsName`.
-/

namespace TruthTable

/-- The characters that no name contains: the glyphs and the gaps. -/
def reserved : List Char := ['∧', '∨', '⇒', '~', '(', ')', '=', '\t', ' ', '\xa0', '\x00']

/-- The characters that gaps are made of. -/
def gapChars : List Char := ['\t', ' ', '\xa0', '\x00']

theorem isGap_iff {c : Char} : isGap c = true ↔ c ∈ gapChars := by
  simp [isGap, gapChars, or_assoc]

/-- A text that can be a name: not empty, and without reserved characters. -/
def IsName (text : String) : Prop := text ≠ "" ∧ ∀ c ∈ text.toList, c ∉ reserved

instance (text : String) : Decidable (IsName text) := inferInstanceAs (Decidable (_ ∧ _))

theorem isNameChar_iff {c : Char} : isNameChar c = true ↔ c ∉ reserved := by
  unfold isNameChar isGap Kind.ofGlyph? reserved
  split <;> simp_all [and_assoc]

theorem isGap_of_glyph? {kind : Kind} {c : Char} (h : kind.glyph? = some c) : isGap c = false := by
  cases kind <;> cases h <;> decide

theorem isGap_of_isNameChar {c : Char} (h : isNameChar c = true) : isGap c = false := by
  rw [isNameChar, Bool.and_eq_true, Bool.not_eq_true'] at h
  exact h.1

theorem Kind.ne_identifier_of_glyph? {kind : Kind} {c : Char} (h : kind.glyph? = some c) :
    kind ≠ .identifier := by
  intro hname
  rw [hname] at h
  cases h

theorem isNameChar_of_glyph? {kind : Kind} {c : Char} (h : kind.glyph? = some c) :
    isNameChar c = false := by
  cases kind <;> cases h <;> decide

/-- A name is written with at least one character, and with name characters only. -/
theorem IsName.toList {name : String} (h : IsName name) :
    name.toList ≠ [] ∧ ∀ c ∈ name.toList, isNameChar c = true :=
  ⟨fun hnil => h.1 (String.toList_eq_nil_iff.1 hnil), fun c hc => isNameChar_iff.2 (h.2 c hc)⟩

/-- At least one character, and name characters only, are a name. -/
theorem isName_ofList {name : List Char} (hne : name ≠ [])
    (hname : ∀ c ∈ name, isNameChar c = true) : IsName (String.ofList name) := by
  refine ⟨fun hempty => hne (by simpa using congrArg String.toList hempty), fun c hc => ?_⟩
  rw [String.toList_ofList] at hc
  exact isNameChar_iff.1 (hname c hc)

/-- No character continues a name at the beginning of `text`. -/
def NameEnds (text : List Char) : Prop := ∀ c ∈ text.head?, isNameChar c = false

theorem nameEnds_nil : NameEnds [] := by
  intro c hc
  cases hc

theorem nameEnds_cons {c : Char} {cs : List Char} (h : isNameChar c = false) :
    NameEnds (c :: cs) := by
  intro d hd
  cases hd
  exact h

theorem nameEnds_append {text k : List Char} (htext : NameEnds text) (hk : NameEnds k) :
    NameEnds (text ++ k) := by
  cases text with
  | nil => exact hk
  | cons c cs => exact nameEnds_cons (htext c rfl)

theorem nameEnds_drop_takeWhile (chars : List Char) :
    NameEnds (chars.drop (chars.takeWhile isNameChar).length) := by
  induction chars with
  | nil => exact nameEnds_nil
  | cons c cs ih =>
    cases hc : isNameChar c with
    | true => rw [List.takeWhile_cons_of_pos hc]; exact ih
    | false => rw [List.takeWhile_cons_of_neg (by simp [hc])]; exact nameEnds_cons hc

/-- The name characters before the end of a name are all of it. -/
theorem takeWhile_isNameChar_append {name k : List Char} (hname : ∀ c ∈ name, isNameChar c = true)
    (hk : NameEnds k) : (name ++ k).takeWhile isNameChar = name := by
  rw [List.takeWhile_append_of_pos hname]
  cases k with
  | nil => simp
  | cons c cs => simp [hk c rfl]

/-- Induction over a text along its split into gaps, glyphs and whole names. -/
theorem textInduction {motive : List Char → Prop} (nil : motive [])
    (gap : ∀ c cs, isGap c = true → motive cs → motive (c :: cs))
    (glyph : ∀ (kind : Kind) c cs, kind.glyph? = some c → motive cs → motive (c :: cs))
    (name : ∀ name cs, name ≠ [] → (∀ c ∈ name, isNameChar c = true) → NameEnds cs →
      motive cs → motive (name ++ cs)) :
    ∀ chars, motive chars
  | [] => nil
  | c :: cs => by
    cases hgap : isGap c with
    | true => exact gap c cs hgap (textInduction nil gap glyph name cs)
    | false =>
      cases hglyph : Kind.ofGlyph? c with
      | some kind =>
        exact glyph kind c cs (Kind.ofGlyph?_eq_some_iff.1 hglyph)
          (textInduction nil gap glyph name cs)
      | none =>
        have hc : isNameChar c = true := by rw [isNameChar, hgap, hglyph]; rfl
        have hsplit := eq_takeWhile_append_drop isNameChar cs
        have hrest := textInduction nil gap glyph name (cs.drop (cs.takeWhile isNameChar).length)
        rw [hsplit]
        refine name (c :: cs.takeWhile isNameChar) _ (List.cons_ne_nil _ _) ?_
          (nameEnds_drop_takeWhile cs) hrest
        intro d hd
        rcases List.mem_cons.1 hd with rfl | hd
        · exact hc
        · exact List.all_eq_true.1 List.all_takeWhile d hd
  termination_by chars => chars.length
  decreasing_by all_goals simp only [List.length_drop, List.length_cons]; omega

/-! ## Lexemes -/

/-- What a token says apart from its place. -/
abbrev Lexeme := Kind × String

/-- A sign of the given kind. -/
def Lexeme.sign (kind : Kind) : Lexeme := (kind, String.ofList kind.glyph?.toList)

/-- A name with the given text. -/
def Lexeme.name (text : String) : Lexeme := (.identifier, text)

/-- The texts of the names among the lexemes, as often as they occur. -/
def Lexeme.names (xs : List Lexeme) : List String :=
  (xs.filter (·.1 = .identifier)).map Prod.snd

namespace Lexeme

@[simp] theorem names_nil : names [] = [] := rfl

@[simp] theorem names_append (xs ys : List Lexeme) : names (xs ++ ys) = names xs ++ names ys := by
  rw [names, List.filter_append, List.map_append]
  rfl

theorem names_cons_name (text : String) (xs : List Lexeme) :
    names (name text :: xs) = text :: names xs := rfl

theorem names_cons_of_ne {x : Lexeme} (h : x.1 ≠ .identifier) (xs : List Lexeme) :
    names (x :: xs) = names xs := by
  rw [names, List.filter_cons_of_neg (by simpa using h)]
  rfl

end Lexeme

namespace Token

/-- The kind and the text of a token. -/
def lexeme (t : Token) : Lexeme := (t.kind, t.text)

/-- The text of the token is what its kind asks for. -/
def Proper (t : Token) : Prop :=
  if t.kind = .identifier then IsName t.text else t.lexeme = .sign t.kind

theorem Proper.lexeme_eq_sign {t : Token} (h : t.Proper) {kind : Kind} (hkind : t.kind = kind)
    (hsign : kind ≠ .identifier) : t.lexeme = .sign kind := by
  subst hkind
  rwa [Proper, if_neg hsign] at h

theorem Proper.isName {t : Token} (h : t.Proper) (hkind : t.kind = .identifier) :
    IsName t.text := by
  rwa [Proper, if_pos hkind] at h

/-- A sign that is written with its glyph is proper. -/
theorem proper_glyph {kind : Kind} {c : Char} (h : kind.glyph? = some c) (span : Span) :
    (⟨kind, String.ofList [c], span⟩ : Token).Proper := by
  rw [Proper, if_neg (Kind.ne_identifier_of_glyph? h), Lexeme.sign, h]
  rfl

/-- A name that is written with name characters is proper. -/
theorem proper_name {name : List Char} (hne : name ≠ []) (hname : ∀ c ∈ name, isNameChar c = true)
    (span : Span) : (⟨.identifier, String.ofList name, span⟩ : Token).Proper := by
  rw [Proper, if_pos rfl]
  exact isName_ofList hne hname

/-- The text of a sign is its glyph. -/
theorem Proper.exists_glyph {t : Token} (h : t.Proper) (hkind : t.kind ≠ .identifier) :
    ∃ c, t.kind.glyph? = some c ∧ t.text = String.ofList [c] := by
  obtain ⟨c, hc⟩ : ∃ c, t.kind.glyph? = some c := by
    cases hk : t.kind <;> first | exact absurd hk hkind | exact ⟨_, rfl⟩
  have htext : t.text = String.ofList t.kind.glyph?.toList :=
    congrArg Prod.snd (h.lexeme_eq_sign rfl hkind)
  rw [hc] at htext
  exact ⟨c, hc, htext⟩

theorem lexeme_eq_name {t : Token} (hkind : t.kind = .identifier) : t.lexeme = .name t.text := by
  rw [lexeme, hkind]
  rfl

end Token

/-! ## Streams -/

namespace TokenStream

theorem toList_congr {s s' : TokenStream} (h : s.next? = s'.next?) : s.toList = s'.toList := by
  cases hs : s'.next? with
  | none => rw [toList_of_next?_eq_none hs, toList_of_next?_eq_none (h.trans hs)]
  | some step => rw [toList_of_next?_eq_some hs, toList_of_next?_eq_some (h.trans hs)]

theorem skipGap_of_not_isGap {source : String} {offset : Nat} {c : Char} {cs : List Char}
    (h : isGap c = false) :
    (⟨source, offset, c :: cs⟩ : TokenStream).skipGap = ⟨source, offset, c :: cs⟩ := by
  have htake : (c :: cs).takeWhile isGap = [] := List.takeWhile_cons_of_neg (by simp [h])
  rw [skipGap, htake]
  rfl

theorem toList_nil (source : String) (offset : Nat) :
    (⟨source, offset, []⟩ : TokenStream).toList = [] :=
  toList_of_next?_eq_none rfl

theorem skipGap_gap (source : String) (offset : Nat) {c : Char} (h : isGap c = true)
    (cs : List Char) :
    (⟨source, offset, c :: cs⟩ : TokenStream).skipGap
      = (⟨source, offset + c.utf8Size, cs⟩ : TokenStream).skipGap := by
  simp only [skipGap, skip, List.takeWhile_cons_of_pos h, Text.utf8Length_cons,
    List.length_cons, List.drop_succ_cons, Nat.add_assoc]

theorem next?_gap (source : String) (offset : Nat) {c : Char} (h : isGap c = true)
    (cs : List Char) :
    (⟨source, offset, c :: cs⟩ : TokenStream).next?
      = (⟨source, offset + c.utf8Size, cs⟩ : TokenStream).next? := by
  rw [next?, next?, skipGap_gap source offset h]

theorem next?_glyph (source : String) (offset : Nat) {kind : Kind} {c : Char}
    (h : kind.glyph? = some c) (cs : List Char) :
    (⟨source, offset, c :: cs⟩ : TokenStream).next?
      = some (⟨kind, String.ofList [c], Span.ofBytes offset (offset + c.utf8Size)⟩,
        ⟨source, offset + c.utf8Size, cs⟩) := by
  rw [next?, skipGap_of_not_isGap (isGap_of_glyph? h), lexeme?, Kind.ofGlyph?_eq_some_iff.2 h]
  rfl

theorem next?_name (source : String) (offset : Nat) {name : List Char} (hne : name ≠ [])
    (hname : ∀ c ∈ name, isNameChar c = true) {k : List Char} (hk : NameEnds k) :
    (⟨source, offset, name ++ k⟩ : TokenStream).next?
      = some (⟨.identifier, String.ofList name,
          Span.ofBytes offset (offset + Text.utf8Length name)⟩,
        ⟨source, offset + Text.utf8Length name, k⟩) := by
  obtain ⟨c, cs, rfl⟩ := List.exists_cons_of_ne_nil hne
  have hc := hname c (List.mem_cons_self ..)
  have hgap := isGap_of_isNameChar hc
  rw [isNameChar, Bool.and_eq_true, Option.isNone_iff_eq_none] at hc
  have htake : (cs ++ k).takeWhile isNameChar = cs :=
    takeWhile_isNameChar_append (fun d hd => hname d (List.mem_cons_of_mem _ hd)) hk
  have hdrop : ((c :: cs) ++ k).drop (c :: cs).length = k := List.drop_left
  rw [next?, List.cons_append, skipGap_of_not_isGap hgap, lexeme?, hc.2]
  simp only [htake, Option.map_some, skip]
  rw [← List.cons_append, hdrop]
  rfl

/-- A gap character is passed over. -/
theorem toList_gap (source : String) (offset : Nat) {c : Char} (h : isGap c = true)
    (cs : List Char) :
    (⟨source, offset, c :: cs⟩ : TokenStream).toList
      = (⟨source, offset + c.utf8Size, cs⟩ : TokenStream).toList :=
  toList_congr (next?_gap source offset h cs)

/-- A glyph is taken as a sign. -/
theorem toList_glyph (source : String) (offset : Nat) {kind : Kind} {c : Char}
    (h : kind.glyph? = some c) (cs : List Char) :
    (⟨source, offset, c :: cs⟩ : TokenStream).toList
      = ⟨kind, String.ofList [c], Span.ofBytes offset (offset + c.utf8Size)⟩
        :: (⟨source, offset + c.utf8Size, cs⟩ : TokenStream).toList :=
  toList_of_next?_eq_some (next?_glyph source offset h cs)

/-- A name is taken as a whole. -/
theorem toList_name (source : String) (offset : Nat) {name : List Char} (hne : name ≠ [])
    (hname : ∀ c ∈ name, isNameChar c = true) {k : List Char} (hk : NameEnds k) :
    (⟨source, offset, name ++ k⟩ : TokenStream).toList
      = ⟨.identifier, String.ofList name, Span.ofBytes offset (offset + Text.utf8Length name)⟩
        :: (⟨source, offset + Text.utf8Length name, k⟩ : TokenStream).toList :=
  toList_of_next?_eq_some (next?_name source offset hne hname hk)

/-- Every token of a stream is proper, wherever the stream begins. -/
theorem proper_of_mem_toList (source : String) (chars : List Char) :
    ∀ offset, ∀ t ∈ (⟨source, offset, chars⟩ : TokenStream).toList, t.Proper := by
  induction chars using textInduction with
  | nil =>
    intro offset t ht
    rw [toList_nil] at ht
    cases ht
  | gap c cs hgap ih =>
    intro offset
    rw [toList_gap source offset hgap]
    exact ih _
  | glyph kind c cs hglyph ih =>
    intro offset t ht
    rw [toList_glyph source offset hglyph] at ht
    rcases List.mem_cons.1 ht with rfl | ht
    · exact Token.proper_glyph hglyph _
    · exact ih _ t ht
  | name name cs hne hname hends ih =>
    intro offset t ht
    rw [toList_name source offset hne hname hends] at ht
    rcases List.mem_cons.1 ht with rfl | ht
    · exact Token.proper_name hne hname _
    · exact ih _ t ht

/-- What the tokens say does not depend on where in a source the text stands. -/
theorem map_lexeme_toList_eq (source source' : String) (chars : List Char) :
    ∀ offset offset', (⟨source, offset, chars⟩ : TokenStream).toList.map Token.lexeme
      = (⟨source', offset', chars⟩ : TokenStream).toList.map Token.lexeme := by
  induction chars using textInduction with
  | nil =>
    intro offset offset'
    rw [toList_nil, toList_nil]
  | gap c cs hgap ih =>
    intro offset offset'
    rw [toList_gap source offset hgap, toList_gap source' offset' hgap]
    exact ih _ _
  | glyph kind c cs hglyph ih =>
    intro offset offset'
    rw [toList_glyph source offset hglyph, toList_glyph source' offset' hglyph]
    exact congrArg (_ :: ·) (ih _ _)
  | name name cs hne hname hends ih =>
    intro offset offset'
    rw [toList_name source offset hne hname hends, toList_name source' offset' hne hname hends]
    exact congrArg (_ :: ·) (ih _ _)

end TokenStream

/-! ## The lexemes of a text -/

/-- The lexemes that a text falls into. -/
def lexemesOf (chars : List Char) : List Lexeme :=
  (⟨"", 0, chars⟩ : TokenStream).toList.map Token.lexeme

theorem map_lexeme_toList (source : String) (offset : Nat) (chars : List Char) :
    (⟨source, offset, chars⟩ : TokenStream).toList.map Token.lexeme = lexemesOf chars :=
  TokenStream.map_lexeme_toList_eq source "" chars offset 0

theorem map_lexeme_tokens (source : String) :
    (tokens source).map Token.lexeme = lexemesOf source.toList :=
  map_lexeme_toList source 0 source.toList

theorem lexemesOf_nil : lexemesOf [] = [] := by
  rw [lexemesOf, TokenStream.toList_nil]
  rfl

theorem lexemesOf_gap {c : Char} (h : isGap c = true) (cs : List Char) :
    lexemesOf (c :: cs) = lexemesOf cs := by
  rw [lexemesOf, TokenStream.toList_gap "" 0 h, map_lexeme_toList]

theorem lexemesOf_glyph {kind : Kind} {c : Char} (h : kind.glyph? = some c) (cs : List Char) :
    lexemesOf (c :: cs) = .sign kind :: lexemesOf cs := by
  rw [lexemesOf, TokenStream.toList_glyph "" 0 h, List.map_cons, map_lexeme_toList, Lexeme.sign, h]
  rfl

theorem lexemesOf_name {name : String} (h : IsName name) {k : List Char} (hk : NameEnds k) :
    lexemesOf (name.toList ++ k) = .name name :: lexemesOf k := by
  obtain ⟨hne, hchars⟩ := h.toList
  rw [lexemesOf, TokenStream.toList_name "" 0 hne hchars hk, List.map_cons, map_lexeme_toList,
    String.ofList_toList]
  rfl

/-- A text that no name goes on into falls into its lexemes, whatever stands before it. -/
theorem lexemesOf_append (text : List Char) {k : List Char} (hk : NameEnds k) :
    lexemesOf (text ++ k) = lexemesOf text ++ lexemesOf k := by
  induction text using textInduction with
  | nil => rw [lexemesOf_nil, List.nil_append, List.nil_append]
  | gap c cs hgap ih => rw [List.cons_append, lexemesOf_gap hgap, lexemesOf_gap hgap, ih]
  | glyph kind c cs hglyph ih =>
    rw [List.cons_append, lexemesOf_glyph hglyph, lexemesOf_glyph hglyph, ih, List.cons_append]
  | name name cs hne hname hends ih =>
    have hisName : IsName (String.ofList name) := isName_ofList hne hname
    rw [← String.toList_ofList (l := name), List.append_assoc, lexemesOf_name hisName hends,
      lexemesOf_name hisName (nameEnds_append hends hk), ih, List.cons_append]

theorem proper_of_mem_tokens {source : String} {t : Token} (h : t ∈ tokens source) : t.Proper :=
  TokenStream.proper_of_mem_toList source source.toList 0 t h

end TruthTable
