import TruthTable.Proofs.Scan
import TruthTable.Proofs.Slices

/-!
# The place of an error

An error stands at the first token with which a formula cannot go on. That has two halves, and
both follow from where the scan stops.

What is read before the error can be completed: if an operand is due there, a name will do, and
after it every open group can be closed. `completion` is that text, and the scan goes through
it (`scan_completion`).

What stands at the error is there for good: whether it is legal depends on the tokens before it
and on its kind, and no text that is added after the token changes either. The token may be a
name and go on in what is added, and its kind and its start are the same then.

Main statement: `parse_error_earliest`.
-/

namespace TruthTable

/-! ## Completing what is legal -/

/-- The lexemes that complete the tokens `before`: a name if an operand is due, and a closing
parenthesis for each open group. -/
def completing (before : List Token) : List Lexeme :=
  (if operandDue before then [.name "x"] else []) ++
    List.replicate (depth before) (.sign .closeParen)

/-- A text that completes the tokens `before`. -/
def completion (before : List Token) : String :=
  String.ofList ((if operandDue before then [' ', 'x'] else []) ++
    List.replicate (depth before) ')')

theorem nameEnds_replicate_closeParen (d : Nat) : NameEnds (List.replicate d ')') := by
  cases d with
  | zero => exact nameEnds_nil
  | succ d => exact nameEnds_cons (by decide)

theorem lexemesOf_replicate_closeParen (d : Nat) :
    lexemesOf (List.replicate d ')') = List.replicate d (.sign .closeParen) := by
  induction d with
  | zero => exact lexemesOf_nil
  | succ d ih =>
    have hglyph : Kind.closeParen.glyph? = some ')' := rfl
    rw [List.replicate_succ, lexemesOf_glyph hglyph, ih, List.replicate_succ]

/-- No name goes on into the text that completes what is before it. -/
theorem nameEnds_completion (before : List Token) : NameEnds (completion before).toList := by
  rw [completion, String.toList_ofList]
  split
  · exact nameEnds_cons (by decide)
  · exact nameEnds_replicate_closeParen _

theorem lexemesOf_completion (before : List Token) :
    lexemesOf (completion before).toList = completing before := by
  have hclosing := lexemesOf_replicate_closeParen (depth before)
  rw [completion, completing, String.toList_ofList]
  split
  · have hx : IsName (String.ofList ['x']) :=
      isName_ofList (List.cons_ne_nil 'x' []) (List.forall_mem_singleton.2 (by decide))
    have hname := lexemesOf_name hx (nameEnds_replicate_closeParen (depth before))
    rw [hclosing] at hname
    rw [List.cons_append, lexemesOf_gap (by decide)]
    exact hname
  · exact hclosing

/-- Where no operand is due, the scan goes through a closing parenthesis for each open group. -/
theorem scan_closing (source : String) {before ts : List Token} (hdue : operandDue before = false)
    (hts : ts.map Token.lexeme = List.replicate (depth before) (.sign .closeParen)) :
    scan source before ts = none := by
  induction ts generalizing before with
  | nil =>
    have hdepth : depth before = 0 := by simpa using (congrArg List.length hts).symm
    have hlegal : legal before none = true := by simp [legal, hdue, hdepth]
    exact if_pos hlegal
  | cons t ts ih =>
    cases hdepth : depth before with
    | zero =>
      rw [hdepth] at hts
      cases hts
    | succ d =>
      rw [hdepth, List.replicate_succ, List.map_cons] at hts
      obtain ⟨hlexeme, hrest⟩ := List.cons.inj hts
      have hkind : t.kind = .closeParen := congrArg Prod.fst hlexeme
      have hlegal : legal before (some t) = true := by simp [legal, hdue, hkind, hdepth]
      have hdue' : operandDue (t :: before) = false := by rw [operandDue, hkind]; rfl
      have hdepth' : depth (t :: before) = d := by simp [depth, hkind, hdepth]
      rw [scan, if_pos hlegal]
      exact ih hdue' (by rw [hdepth', hrest])

/-- The scan goes through what completes the tokens before it. -/
theorem scan_completing (source : String) {before ts : List Token}
    (hts : ts.map Token.lexeme = completing before) : scan source before ts = none := by
  rw [completing] at hts
  split at hts
  · next hdue =>
    obtain ⟨t, us, rfl, hlexeme, hus⟩ := List.map_eq_cons_iff.1 hts
    have hkind : t.kind = .identifier := congrArg Prod.fst hlexeme
    have hlegal : legal before (some t) = true := legal_of_due hdue (by rw [hkind]; rfl)
    have hdue' : operandDue (t :: before) = false := by rw [operandDue, hkind]; rfl
    have hdepth : depth (t :: before) = depth before :=
      depth_cons_of_ne (by rw [hkind]; decide) (by rw [hkind]; decide)
    rw [scan, if_pos hlegal]
    exact scan_closing source hdue' (by rw [hdepth]; exact hus)
  · next hdue => exact scan_closing source (Bool.eq_false_iff.2 hdue) hts

/-! ## What is legal for good -/

/-- Every token is legal after those before it. -/
def AllLegal (passed : List Token) : Prop := ∀ j < passed.length, LegalAt passed j

/-- Whether a token is legal does not depend on what follows it. -/
theorem legalAt_append_iff {passed : List Token} {j : Nat} (hj : j < passed.length)
    (ts : List Token) : LegalAt (passed ++ ts) j ↔ LegalAt passed j := by
  rw [LegalAt, LegalAt, List.take_append_of_le_length (Nat.le_of_lt hj),
    List.getElem?_append_left hj]

theorem AllLegal.legalAt_append {passed : List Token} (h : AllLegal passed) (ts : List Token) :
    ∀ j < passed.length, LegalAt (passed ++ ts) j :=
  fun j hj => (legalAt_append_iff hj ts).2 (h j hj)

/-- Legal tokens that are completed are read. -/
theorem AllLegal.exists_parse {passed ts : List Token} (h : AllLegal passed) {source : String}
    (hsource : tokens source = passed ++ ts)
    (hts : ts.map Token.lexeme = completing passed.reverse) (vs : Variables) :
    ∃ f, (parse vs source).1 = .ok f := by
  refine (parse_error_iff_fault vs source).1.2 ?_
  rw [hsource]
  -- The scan goes on from the legal tokens and meets nothing that is not.
  have hscan := scan_completing source hts
  rcases scan_cases source ts passed (h.legalAt_append ts) with ⟨-, hlegal⟩ | ⟨i, -, hsome⟩
  · exact hlegal
  · cases hscan.symm.trans hsome

/-- A token that is not legal after legal ones is where reading fails. -/
theorem AllLegal.parse_eq {passed ts : List Token} {t : Token} (h : AllLegal passed)
    {source : String} (hsource : tokens source = passed ++ t :: ts)
    (ht : legal passed.reverse (some t) = false) (vs : Variables) :
    (parse vs source).1 = .error (fault source passed.reverse (some t)) := by
  refine ((parse_error_iff_fault vs source).2.1 _).2 ⟨passed.length, ?_, ?_⟩
  · rw [hsource]
    refine ⟨by simp, ?_, h.legalAt_append _⟩
    rw [legalAt_length_iff, List.head?_cons, ht]
    exact Bool.false_ne_true
  · rw [hsource, faultAt_length, List.head?_cons]

/-- Reading fails at the end of the source or at a token, after legal ones. -/
theorem exists_allLegal_of_parse {vs : Variables} {source : String} {error : Error}
    (h : (parse vs source).1 = .error error) :
    ∃ passed rest, tokens source = passed ++ rest ∧ AllLegal passed ∧
      legal passed.reverse rest.head? = false ∧
      error = fault source passed.reverse rest.head? := by
  obtain ⟨i, ⟨hle, hillegal, hbefore⟩, herror⟩ := ((parse_error_iff_fault vs source).2.1 error).1 h
  have hlength : ((tokens source).take i).length = i := List.length_take_of_le hle
  have hsplit := (List.take_append_drop i (tokens source)).symm
  refine ⟨(tokens source).take i, (tokens source).drop i, hsplit, fun j hj => ?_, ?_, ?_⟩
  · rw [← legalAt_append_iff hj ((tokens source).drop i), ← hsplit]
    exact hbefore j (hlength ▸ hj)
  · rw [List.head?_drop, ← Bool.not_eq_true]
    exact hillegal
  · rw [List.head?_drop]
    exact herror

/-- Tokens of one kind are legal after the same tokens. -/
theorem legal_congr (before : List Token) {t u : Token} (h : u.kind = t.kind) :
    legal before (some u) = legal before (some t) := by
  rw [legal, legal, h]

/-- What is not legal is at fault where it starts. -/
@[simp] theorem fault_position (source : String) (before : List Token) (next : Option Token) :
    (fault source before next).position = startOf source next := by
  rw [fault]
  split <;> rfl

theorem toNat_startOf_none {source : String} (hsize : source.utf8ByteSize < UInt32.size) :
    (startOf source none).toNat = source.utf8ByteSize := UInt32.toNat_ofNat_of_lt' hsize

/-- All tokens are at fault for the same kind of cause. -/
theorem fault_cause_name (source source' : String) (before : List Token) (t u : Token) :
    (fault source before (some t)).cause.name = (fault source' before (some u)).cause.name := by
  rw [fault, fault]
  split <;> rfl

/-! ## The earliest place -/

/-- In a source below the limit of offsets, an error stands where what is before it could still
have become a formula. If that is not the end of the source, a token starts there, and after it
nothing can change the place or the kind of the error. -/
theorem parse_error_earliest {vs : Variables} {source : String} {error : Error}
    (hsize : source.utf8ByteSize < UInt32.size) (h : (parse vs source).1 = .error error) :
    (∃ head w, IsSlice source 0 error.position.toNat head ∧
      ∀ vs', ∃ f, (parse vs' (head ++ w)).1 = .ok f) ∧
    (error.position.toNat < source.utf8ByteSize →
      ∃ t ∈ tokens source, t.span.start = error.position ∧
        ∃ head, IsSlice source 0 t.span.stop.toNat head ∧
          ∀ w vs', ∃ error', (parse vs' (head ++ w)).1 = .error error' ∧
            error'.cause.name = error.cause.name ∧ error'.position = error.position) := by
  obtain ⟨passed, rest, htokens, hpassed, hillegal, rfl⟩ := exists_allLegal_of_parse h
  rw [fault_position]
  have hends := nameEnds_completion passed.reverse
  have hcompletion := lexemesOf_completion passed.reverse
  cases rest with
  -- The source ends too early, so all of it stands before the error.
  | nil =>
    rw [List.head?_nil, toNat_startOf_none hsize]
    refine ⟨⟨source, completion passed.reverse, ?_, fun vs' => ?_⟩, fun hlt => ?_⟩
    · have hslice := isSlice_head (List.append_nil source.toList).symm
      rwa [String.ofList_toList, ← Text.utf8ByteSize_eq] at hslice
    · obtain ⟨ws, hws, hlexemes⟩ := exists_tokens_append source hends
      rw [htokens, List.append_nil] at hws
      exact hpassed.exists_parse hws (hlexemes.trans hcompletion) vs'
    · exact absurd hlt (Nat.lt_irrefl _)
  -- The source is cut before the token that is not legal, and right after it.
  | cons t rest =>
    obtain ⟨head, hhead, hlonger, hbefore, hafter⟩ := exists_heads hsize htokens
    refine ⟨⟨head, completion passed.reverse, hhead, fun vs' => ?_⟩,
      fun _ => ⟨t, by simp [htokens], rfl, head ++ t.text, hlonger, fun w vs' => ?_⟩⟩
    · obtain ⟨ws, hws, hlexemes⟩ := hbefore _ hends
      exact hpassed.exists_parse hws (hlexemes.trans hcompletion) vs'
    · obtain ⟨u, us, hus, hkind, hstart⟩ := hafter w
      have hu : legal passed.reverse (some u) = false := (legal_congr _ hkind).trans hillegal
      refine ⟨_, hpassed.parse_eq hus hu vs', fault_cause_name _ _ _ u t, ?_⟩
      rw [fault_position]
      exact hstart

/-- A group that goes on with another name could have been closed before it, and cannot be after
it. -/
theorem parse_unclosed_group :
    (∃ w f, (parse .empty ("(p " ++ w)).1 = .ok f) ∧
      ∀ w, ∃ error, (parse .empty ("(p q" ++ w)).1 = .error error ∧
        error.cause.name = "UnmatchedParenthesis" ∧ error.position = 3 := by
  have hread : (parse .empty "(p q").1 = .error ⟨.unclosedGroup, 3⟩ :=
    parse_eq_error (by decide +kernel)
  obtain ⟨⟨head, w, hhead, hok⟩, hlater⟩ := parse_error_earliest (by decide) hread
  have hslice : IsSlice "(p q" 0 3 "(p " := ⟨[], ['q'], by decide, by decide, by decide⟩
  obtain rfl := hhead.unique hslice
  obtain ⟨t, ht, hstart, head, hhead, herror⟩ := hlater (by decide)
  have hstops : ∀ t ∈ tokens "(p q", t.span.start = 3 → t.span.stop = 4 := by decide +kernel
  have hslice : IsSlice "(p q" 0 4 "(p q" := ⟨[], [], by decide, by decide, by decide⟩
  rw [hstops t ht hstart] at hhead
  obtain rfl := hhead.unique hslice
  exact ⟨⟨w, hok .empty⟩, fun w => herror w .empty⟩

end TruthTable
