import TruthTable.Proofs.Lexing

/-!
# Scanning by patterns

A text can be scanned by a table of patterns, each with what is to be done with the text that it
matches. The first pattern that matches where a text begins decides: it makes a token, or the text
is passed over and all patterns are tried again behind it. Where no pattern matches, scanning stops
as it does at the end of the text, and nothing tells the two apart.

The nine patterns of `patterns` leave no such place: the last one matches whatever begins with none
of the characters that the others match (`firstMatch?_eq_none_iff`). So scanning takes the tokens
that a stream takes (`TokenStream.scan_eq_next?`).

What a pattern matches is the longest text among those that it stands for
(`Pattern.match?_eq_some_iff`).
-/

namespace TruthTable

/-! ## Patterns -/

/-- The longest of the texts with a property that `text` begins with. -/
structure Longest (P : List Char → Prop) (text found : List Char) : Prop where
  holds : P found
  begins : found <+: text
  length_le : ∀ other, P other → other <+: text → other.length ≤ found.length

theorem Longest.unique {P : List Char → Prop} {text found found' : List Char}
    (h : Longest P text found) (h' : Longest P text found') : found = found' :=
  (List.prefix_of_prefix_length_le h.begins h'.begins
    (h'.length_le found h.holds h.begins)).eq_of_length_le
    (h.length_le found' h'.holds h'.begins)

/-- The texts that are looked for at the beginning of a text. -/
inductive Pattern where
  /-- One character, and that one. -/
  | char (c : Char)
  /-- One or more characters, all of them among these. -/
  | anyOf (chars : List Char)
  /-- One or more characters, none of them among these. -/
  | noneOf (chars : List Char)

namespace Pattern

/-- The pattern stands for this text. -/
def Matches : Pattern → List Char → Prop
  | char c, text => text = [c]
  | anyOf chars, text => text ≠ [] ∧ ∀ d ∈ text, d ∈ chars
  | noneOf chars, text => text ≠ [] ∧ ∀ d ∈ text, d ∉ chars

/-- The longest run of some characters that a text begins with, if it begins with any. -/
def run? (p : Char → Bool) (text : List Char) : Option (List Char) :=
  match text.takeWhile p with
  | [] => none
  | run => some run

/-- What the pattern matches at the beginning of a text. -/
def match? : Pattern → List Char → Option (List Char)
  | char c, text => if text.head? = some c then some [c] else none
  | anyOf chars, text => run? (· ∈ chars) text
  | noneOf chars, text => run? (· ∉ chars) text

theorem run?_cons_of_pos {p : Char → Bool} {c : Char} (h : p c = true) (cs : List Char) :
    run? p (c :: cs) = some (c :: cs.takeWhile p) := by
  rw [run?, List.takeWhile_cons_of_pos h]

theorem run?_cons_of_neg {p : Char → Bool} {c : Char} (h : p c = false) (cs : List Char) :
    run? p (c :: cs) = none := by
  rw [run?, List.takeWhile_cons_of_neg (by rw [h]; exact Bool.false_ne_true)]

/-- A run that goes as far as it can is the longest. -/
theorem longest_takeWhile {p : Char → Bool} {c : Char} (h : p c = true) (cs : List Char) :
    Longest (fun run => run ≠ [] ∧ ∀ d ∈ run, p d = true) (c :: cs) (c :: cs.takeWhile p) := by
  have htake : (c :: cs).takeWhile p = c :: cs.takeWhile p := List.takeWhile_cons_of_pos h
  rw [← htake]
  refine ⟨⟨?_, List.all_eq_true.1 List.all_takeWhile⟩, List.takeWhile_prefix p, ?_⟩
  · rw [htake]
    exact List.cons_ne_nil _ _
  · rintro other ⟨-, hother⟩ ⟨rest, hrest⟩
    rw [← hrest, List.takeWhile_append_of_pos hother, List.length_append]
    exact Nat.le_add_right _ _

/-- The run that is found is the longest, and where none is found, there is none. -/
theorem run?_spec (p : Char → Bool) (text : List Char) :
    match run? p text with
    | some run => Longest (fun run => run ≠ [] ∧ ∀ d ∈ run, p d = true) text run
    | none => ∀ run, run ≠ [] ∧ (∀ d ∈ run, p d = true) → ¬ run <+: text := by
  cases text with
  | nil =>
    rintro run ⟨hne, -⟩ hbegins
    exact hne (List.prefix_nil.1 hbegins)
  | cons c cs =>
    cases hc : p c with
    | true =>
      rw [run?_cons_of_pos hc]
      exact longest_takeWhile hc cs
    | false =>
      rw [run?_cons_of_neg hc]
      rintro (_ | ⟨d, ds⟩) ⟨hne, hrun⟩ hbegins
      · exact hne rfl
      · obtain ⟨rfl, -⟩ := List.cons_prefix_cons.1 hbegins
        rw [hrun d List.mem_cons_self] at hc
        cases hc

theorem matches_anyOf {chars : List Char} {p : Char → Bool} (h : ∀ d, p d = true ↔ d ∈ chars) :
    (anyOf chars).Matches = fun run => run ≠ [] ∧ ∀ d ∈ run, p d = true := by
  funext run
  simp only [Matches, h]

theorem matches_noneOf {chars : List Char} {p : Char → Bool} (h : ∀ d, p d = true ↔ d ∉ chars) :
    (noneOf chars).Matches = fun run => run ≠ [] ∧ ∀ d ∈ run, p d = true := by
  funext run
  simp only [Matches, h]

/-- The text that is matched is the longest that the pattern stands for, and where none is matched,
there is none. -/
theorem match?_spec (pattern : Pattern) (text : List Char) :
    match pattern.match? text with
    | some found => Longest pattern.Matches text found
    | none => ∀ found, pattern.Matches found → ¬ found <+: text := by
  cases pattern with
  | char c =>
    rw [match?]
    by_cases hhead : text.head? = some c
    · obtain ⟨cs, rfl⟩ := List.head?_eq_some_iff.1 hhead
      rw [if_pos hhead]
      refine ⟨rfl, ⟨cs, rfl⟩, ?_⟩
      rintro other rfl -
      exact Nat.le_refl _
    · rw [if_neg hhead]
      rintro other rfl ⟨rest, rfl⟩
      exact hhead rfl
  | anyOf chars =>
    rw [match?, matches_anyOf fun d => decide_eq_true_iff]
    exact run?_spec _ text
  | noneOf chars =>
    rw [match?, matches_noneOf fun d => decide_eq_true_iff]
    exact run?_spec _ text

/-- A pattern matches the longest text that it stands for, if there is one. -/
theorem match?_eq_some_iff {pattern : Pattern} {text found : List Char} :
    pattern.match? text = some found ↔ Longest pattern.Matches text found := by
  have hspec := pattern.match?_spec text
  cases hmatch : pattern.match? text with
  | none =>
    rw [hmatch] at hspec
    exact ⟨nofun, fun h => absurd h.begins (hspec found h.holds)⟩
  | some found' =>
    rw [hmatch] at hspec
    constructor
    · rintro ⟨⟩
      exact hspec
    · intro h
      rw [h.unique hspec]

theorem Matches.ne_nil {pattern : Pattern} {text : List Char} (h : pattern.Matches text) :
    text ≠ [] := by
  cases pattern with
  | char c =>
    cases h
    exact List.cons_ne_nil c []
  | anyOf chars => exact h.1
  | noneOf chars => exact h.1

end Pattern

/-! ## The table of patterns -/

/-- What is done with a text that is matched. -/
inductive Handler where
  | skip
  | sign (kind : Kind) (text : String)
  | name
deriving DecidableEq

/-- The token that is made of a text, unless the text is passed over. -/
def Handler.token? (handler : Handler) (matched : List Char) (span : Span) : Option Token :=
  match handler with
  | skip => none
  | sign kind text => some ⟨kind, text, span⟩
  | name => some ⟨.identifier, String.ofList matched, span⟩

/-- The patterns in the order in which they are tried. -/
def patterns : List (Pattern × Handler) := [
  (.anyOf ['\t', ' ', '\xa0', '\x00'], .skip),
  (.char '∧', .sign .and "∧"),
  (.char '∨', .sign .or "∨"),
  (.char '⇒', .sign .implies "⇒"),
  (.char '~', .sign .tilde "~"),
  (.char '(', .sign .openParen "("),
  (.char ')', .sign .closeParen ")"),
  (.char '=', .sign .assignment "="),
  (.noneOf ['∧', '∨', '⇒', '~', '(', ')', '=', '\t', ' ', '\xa0', '\x00'], .name)]

/-- The first pattern that matches at the beginning of a text: what is to be done, and what is
matched. -/
def firstMatch? (text : List Char) : Option (Handler × List Char) :=
  patterns.findSome? fun entry => (entry.1.match? text).map fun found => (entry.2, found)

theorem firstMatch?_ne_nil {text found : List Char} {handler : Handler}
    (h : firstMatch? text = some (handler, found)) : found ≠ [] := by
  obtain ⟨⟨pattern, handler'⟩, -, hentry⟩ := List.exists_of_findSome?_eq_some h
  obtain ⟨found', hfound, hpair⟩ := Option.map_eq_some_iff.1 hentry
  cases hpair
  exact (Pattern.match?_eq_some_iff.1 hfound).holds.ne_nil

/-- The first pattern decides that stands for something with which the text begins, and it takes as
much as it can. -/
theorem firstMatch?_of_split {text found : List Char} {before after : List (Pattern × Handler)}
    {pattern : Pattern} {handler : Handler}
    (hsplit : patterns = before ++ (pattern, handler) :: after)
    (hbefore : ∀ entry ∈ before, ∀ other, entry.1.Matches other → ¬ other <+: text)
    (hlongest : Longest pattern.Matches text found) :
    firstMatch? text = some (handler, found) := by
  have hnone : before.findSome? (fun entry =>
      (entry.1.match? text).map fun found => (entry.2, found)) = none := by
    rw [List.findSome?_eq_none_iff]
    intro entry hentry
    rw [Option.map_eq_none_iff, Option.eq_none_iff_forall_ne_some]
    intro other hother
    have hother := Pattern.match?_eq_some_iff.1 hother
    exact hbefore entry hentry other hother.holds hother.begins
  rw [firstMatch?, hsplit, List.findSome?_append, hnone, Option.none_or, List.findSome?_cons,
    Pattern.match?_eq_some_iff.2 hlongest]
  rfl

theorem firstMatch?_gap {c : Char} (h : isGap c = true) (cs : List Char) :
    firstMatch? (c :: cs) = some (.skip, c :: cs.takeWhile isGap) := by
  have hsplit : patterns = [] ++ (.anyOf gapChars, .skip) :: patterns.tail := rfl
  refine firstMatch?_of_split hsplit nofun ?_
  rw [Pattern.matches_anyOf fun d => isGap_iff]
  exact Pattern.longest_takeWhile h cs

theorem firstMatch?_glyph {kind : Kind} {c : Char} (h : kind.glyph? = some c) (cs : List Char) :
    firstMatch? (c :: cs) = some (.sign kind (String.ofList [c]), [c]) := by
  cases kind <;> cases h <;> rfl

/-- What the patterns before the last one stand for begins with a character that no name
contains. -/
theorem mem_reserved_of_matches {entry : Pattern × Handler} (hentry : entry ∈ patterns.dropLast)
    {c : Char} {cs : List Char} (h : entry.1.Matches (c :: cs)) : c ∈ reserved := by
  simp only [patterns, List.dropLast, List.mem_cons, List.not_mem_nil, or_false] at hentry
  rcases hentry with rfl | rfl | rfl | rfl | rfl | rfl | rfl | rfl
  · have hgap : c ∈ gapChars := h.2 c List.mem_cons_self
    exact List.mem_append_right ['∧', '∨', '⇒', '~', '(', ')', '='] hgap
  all_goals
    cases h
    decide

theorem firstMatch?_name {c : Char} (h : isNameChar c = true) (cs : List Char) :
    firstMatch? (c :: cs) = some (.name, c :: cs.takeWhile isNameChar) := by
  have hsplit : patterns = patterns.dropLast ++ (.noneOf reserved, .name) :: [] := rfl
  refine firstMatch?_of_split hsplit ?_ ?_
  · rintro entry hentry other hother hbegins
    obtain ⟨d, ds, rfl⟩ := List.exists_cons_of_ne_nil hother.ne_nil
    obtain ⟨rfl, -⟩ := List.cons_prefix_cons.1 hbegins
    exact isNameChar_iff.1 h (mem_reserved_of_matches hentry hother)
  · rw [Pattern.matches_noneOf fun d => isNameChar_iff]
    exact Pattern.longest_takeWhile h cs

/-- Some pattern matches wherever a text goes on. -/
theorem firstMatch?_eq_none_iff {text : List Char} : firstMatch? text = none ↔ text = [] := by
  cases text with
  | nil => exact ⟨fun _ => rfl, fun _ => rfl⟩
  | cons c cs =>
    refine ⟨fun hnone => ?_, nofun⟩
    cases hgap : isGap c with
    | true => cases (firstMatch?_gap hgap cs).symm.trans hnone
    | false =>
      cases hglyph : Kind.ofGlyph? c with
      | some kind =>
        cases (firstMatch?_glyph (Kind.ofGlyph?_eq_some_iff.1 hglyph) cs).symm.trans hnone
      | none =>
        have hname : isNameChar c = true := by rw [isNameChar, hgap, hglyph]; rfl
        cases (firstMatch?_name hname cs).symm.trans hnone

/-! ## Scanning -/

namespace TokenStream

theorem rest_length_skip_lt {s : TokenStream} {text : List Char} (hrest : s.rest ≠ [])
    (hne : text ≠ []) : (s.skip text).rest.length < s.rest.length := by
  have hrest := List.length_pos_iff.2 hrest
  have hpos := List.length_pos_iff.2 hne
  show (s.rest.drop text.length).length < s.rest.length
  rw [List.length_drop]
  omega

/-- The next token that the patterns find and the place after it; nothing at the end of the source,
or where no pattern matches. -/
def scan (s : TokenStream) : Option (Token × TokenStream) :=
  if hrest : s.rest = [] then
    none
  else
    match hfirst : firstMatch? s.rest with
    | none => none
    | some (handler, found) =>
      have := rest_length_skip_lt hrest (firstMatch?_ne_nil hfirst)
      match handler.token? found
          (Span.ofBytes s.offset (s.offset + Text.utf8Length found)) with
      | some t => some (t, s.skip found)
      | none => (s.skip found).scan
termination_by s.rest.length

theorem scan_of_firstMatch? {s : TokenStream} {handler : Handler} {found : List Char}
    (h : firstMatch? s.rest = some (handler, found)) :
    s.scan =
      match handler.token? found
          (Span.ofBytes s.offset (s.offset + Text.utf8Length found)) with
      | some t => some (t, s.skip found)
      | none => (s.skip found).scan := by
  have hrest : s.rest ≠ [] := by
    intro hnil
    rw [hnil] at h
    cases h
  rw [scan, dif_neg hrest]
  split
  · next hnone => cases h.symm.trans hnone
  · next hsome =>
    cases h.symm.trans hsome
    rfl

/-- Where the gap is passed over, the next token is the same. -/
theorem next?_skipGap (source : String) (rest : List Char) : ∀ offset,
    (⟨source, offset, rest⟩ : TokenStream).skipGap.next?
      = (⟨source, offset, rest⟩ : TokenStream).next? := by
  induction rest with
  | nil => exact fun offset => rfl
  | cons c cs ih =>
    intro offset
    cases hgap : isGap c with
    | true => rw [skipGap_gap source offset hgap, ih, next?_gap source offset hgap]
    | false => rw [skipGap_of_not_isGap hgap]

/-- Scanning by patterns takes the next token of a stream, and stops only where there is none. -/
theorem scan_eq_next? : ∀ s : TokenStream, s.scan = s.next?
  | ⟨source, offset, []⟩ => by
    rw [scan, dif_pos rfl]
    rfl
  | ⟨source, offset, c :: cs⟩ => by
    cases hgap : isGap c with
    | true =>
      have hfound : (c :: cs).takeWhile isGap = c :: cs.takeWhile isGap :=
        List.takeWhile_cons_of_pos hgap
      -- The pattern of gaps takes the whole gap, so a token follows it.
      have hscan : (⟨source, offset, c :: cs⟩ : TokenStream).scan
          = (⟨source, offset, c :: cs⟩ : TokenStream).skipGap.scan := by
        rw [scan_of_firstMatch? (firstMatch?_gap hgap cs), skipGap, hfound]
        rfl
      have hshorter : (⟨source, offset, c :: cs⟩ : TokenStream).skipGap.rest.length
          < (c :: cs).length := by
        rw [skipGap, hfound]
        exact rest_length_skip_lt (List.cons_ne_nil c cs) (List.cons_ne_nil _ _)
      rw [hscan, scan_eq_next?, next?_skipGap]
    | false =>
      rw [next?, skipGap_of_not_isGap hgap, lexeme?]
      cases hglyph : Kind.ofGlyph? c with
      | some kind =>
        rw [scan_of_firstMatch? (firstMatch?_glyph (Kind.ofGlyph?_eq_some_iff.1 hglyph) cs)]
        rfl
      | none =>
        have hname : isNameChar c = true := by rw [isNameChar, hgap, hglyph]; rfl
        rw [scan_of_firstMatch? (firstMatch?_name hname cs)]
        rfl
termination_by s => s.rest.length
decreasing_by exact hshorter

end TokenStream

end TruthTable
