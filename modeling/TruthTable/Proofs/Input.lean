import Mathlib.Data.List.TakeWhile
import TruthTable.Command.Batch

/-!
# Expressions from the input

Without expressions among its arguments, the command takes the lines of its input that are not
blank. It makes no difference whether expressions come from there or from the arguments: the
lines are passed on as they are, and behind `--` no argument is taken for an option, whatever it
begins with.

What arguments ask for is a matter of how they are read, and of that no more is used than what
`ReadsArguments` says: the value of `--max-variables` is the limit, and everything behind `--` is an
expression. So the results hold of any such reader, and `Request.ofArguments` is one
(`ofArguments_reads`).

What a line is, `Lines` says without the accumulator of `linesAfter`: it goes up to a line feed,
and one carriage return before that is not part of it; behind the last line feed, what is left is
a line too, and there a carriage return belongs to it. Every text has its lines, and only these
(`lines_iff`).

Main statement: `run_input`.
-/

namespace TruthTable

/-! ## Blank lines -/

namespace Text

/-- The text without the blanks at its beginning and at its end. -/
def trim (text : List Char) : List Char := trimEnd (text.dropWhile isBlank)

theorem trimEnd_eq_nil_iff {text : List Char} : trimEnd text = [] ↔ ∀ c ∈ text, isBlank c = true := by
  unfold trimEnd
  rw [List.reverse_eq_nil_iff, List.dropWhile_eq_nil_iff]
  simp only [List.mem_reverse]

/-- A line is blank if nothing of it is left when it is trimmed. -/
theorem isBlankLine_iff {line : String} : isBlankLine line = true ↔ trim line.toList = [] := by
  rw [trim, trimEnd_eq_nil_iff, isBlankLine, List.all_eq_true]
  constructor
  · intro h c hc
    exact h c (List.dropWhile_sublist _ |>.subset hc)
  · intro h
    -- The first character that is left would not be blank.
    have hnil : line.toList.dropWhile isBlank = [] := by
      cases hdrop : line.toList.dropWhile isBlank with
      | nil => rfl
      | cons c cs =>
        have hfirst := List.head?_dropWhile_not isBlank line.toList
        rw [hdrop] at h hfirst
        have hblank := h c List.mem_cons_self
        simp [hblank] at hfirst
    exact List.dropWhile_eq_nil_iff.1 hnil

end Text

namespace Command

/-! ## Lines -/

/-- The text is made of the lines, and of what ends them. -/
inductive Lines : List Char → List String → Prop where
  | nil : Lines [] []
  | unended {line} (hne : line ≠ []) (hline : '\n' ∉ line) : Lines line [String.ofList line]
  | lineFeed {line text lines} (hline : '\n' ∉ line) (hreturn : line.getLast? ≠ some '\r')
      (hrest : Lines text lines) : Lines (line ++ '\n' :: text) (String.ofList line :: lines)
  | carriageReturn {line text lines} (hline : '\n' ∉ line) (hrest : Lines text lines) :
      Lines (line ++ '\r' :: '\n' :: text) (String.ofList line :: lines)

section

variable {line text : List Char}

theorem linesAfter_append (h : '\n' ∉ line) (reversed text : List Char) :
    linesAfter reversed (line ++ text) = linesAfter (line.reverse ++ reversed) text := by
  induction line generalizing reversed with
  | nil => rfl
  | cons c cs ih =>
    have hne : c ≠ '\n' := fun heq => h (heq ▸ List.mem_cons_self)
    have hcs : '\n' ∉ cs := fun hmem => h (List.mem_cons_of_mem c hmem)
    rw [List.cons_append, linesAfter, if_neg hne, ih hcs, List.reverse_cons, List.append_assoc]
    rfl

theorem linesAfter_lineFeed (h : '\n' ∉ line) (text : List Char) :
    linesAfter [] (line ++ '\n' :: text) = endedLine line.reverse :: linesAfter [] text := by
  rw [linesAfter_append h, List.append_nil, linesAfter, if_pos rfl]

theorem linesAfter_unended (h : '\n' ∉ line) (hne : line ≠ []) :
    linesAfter [] line = [String.ofList line] := by
  have hlines := linesAfter_append h [] []
  rw [List.append_nil, List.append_nil, linesAfter, List.reverse_reverse] at hlines
  rw [hlines, if_neg (by simpa using hne)]

theorem endedLine_concat (line : List Char) :
    endedLine (line ++ ['\r']).reverse = String.ofList line := by
  rw [List.reverse_append, List.reverse_singleton, List.singleton_append, endedLine,
    List.reverse_reverse]

theorem endedLine_of_ne (h : line.getLast? ≠ some '\r') :
    endedLine line.reverse = String.ofList line := by
  unfold endedLine
  split
  · next front hfront =>
    rw [← List.head?_reverse, hfront] at h
    exact absurd rfl h
  · rw [List.reverse_reverse]

end

theorem Lines.linesAfter_eq {text : List Char} {lines : List String} (h : Lines text lines) :
    linesAfter [] text = lines := by
  induction h with
  | nil => rfl
  | unended hne hline => exact linesAfter_unended hline hne
  | lineFeed hline hreturn _ ih => rw [linesAfter_lineFeed hline, endedLine_of_ne hreturn, ih]
  | @carriageReturn line text lines hline _ ih =>
    have hlonger : '\n' ∉ line ++ ['\r'] := by simp [hline]
    have hlines := linesAfter_lineFeed hlonger text
    rwa [endedLine_concat, ih, List.append_assoc] at hlines

theorem lines_linesAfter (text : List Char) : Lines text (linesAfter [] text) := by
  by_cases hmem : '\n' ∈ text
  · obtain ⟨line, rest, htext, hline⟩ := List.eq_append_cons_of_mem hmem
    have hshorter : rest.length < text.length := by
      rw [htext, List.length_append, List.length_cons]
      omega
    have hrest := lines_linesAfter rest
    rw [htext, linesAfter_lineFeed hline]
    by_cases hreturn : line.getLast? = some '\r'
    · obtain ⟨front, rfl⟩ := List.getLast?_eq_some_iff.1 hreturn
      have hfront : '\n' ∉ front := fun h => hline (List.mem_append_left _ h)
      rw [endedLine_concat, List.append_assoc]
      exact .carriageReturn hfront hrest
    · rw [endedLine_of_ne hreturn]
      exact .lineFeed hline hreturn hrest
  · by_cases hne : text = []
    · subst hne
      exact .nil
    · rw [linesAfter_unended hmem hne]
      exact .unended hne hmem
termination_by text.length

/-- Every text has lines, and no others. -/
theorem lines_iff {text : List Char} {lines : List String} :
    Lines text lines ↔ lines = linesAfter [] text := by
  constructor
  · intro h
    exact h.linesAfter_eq.symm
  · rintro rfl
    exact lines_linesAfter text

/-! ## Arguments -/

/-- Every number that is accepted can be written. -/
theorem number?_toString {n : Nat} (h : n ≤ largestNumber) : number? (toString n) = some n := by
  have hdigit : ∀ c ∈ Nat.toDigits 10 n, c.isDigit = true := fun c hc =>
    Nat.isDigit_of_mem_toDigits (by omega) (by omega) hc
  have hvalue : (Nat.toDigits 10 n).foldl (fun m c => 10 * m + (c.toNat - '0'.toNat)) 0 = n := by
    rw [← Nat.ofDigitChars_eq_foldl, Nat.ofDigitChars_ten_toDigits]
  have hdigits : ofDigits? (Nat.toDigits 10 n) = some n := by
    rw [ofDigits?, if_pos ⟨Nat.toDigits_ne_nil, List.all_eq_true.2 hdigit⟩, hvalue]
  unfold number?
  rw [Nat.toString_eq_ofList_toDigits, String.toList_ofList]
  split
  -- No number is written with a plus sign.
  · next rest hplus =>
    have hmem : '+' ∈ Nat.toDigits 10 n := by rw [hplus]; exact List.mem_cons_self
    exact absurd (hdigit '+' hmem) (by decide)
  · show (ofDigits? (Nat.toDigits 10 n)).filter (· ≤ largestNumber) = some n
    rw [hdigits, Option.filter_some, if_pos (decide_eq_true h)]

/-- A number does not look like an option. -/
theorem looksLikeOption_of_number? {number : String} {n : Nat} (h : number? number = some n) :
    Argument.looksLikeOption number = false := by
  unfold Argument.looksLikeOption
  split
  · next c cs hchars =>
    unfold number? at h
    rw [hchars] at h
    simp [ofDigits?, Char.isDigit] at h
  · rfl

theorem takeValue_next (option value : String) (rest : List String) :
    takeValue option .none (value :: rest) =
      if Argument.looksLikeOption value then .error (.missingValue option)
      else .ok (value, rest) := rfl

theorem withVariableLimit_none (number : String) :
    Options.none.withVariableLimit number =
      match number? number with
      | some limit => .ok ⟨some limit, .none, []⟩
      | .none => .error (.invalidValue "--max-variables" number) := by
  unfold Options.withVariableLimit
  cases number? number <;> rfl

/-- The arguments that follow a limit are read if it is one. -/
theorem ofArguments_limit (number : String) (more : List String) :
    Request.ofArguments ("--max-variables" :: number :: more) =
      if Argument.looksLikeOption number then .error (.missingValue "--max-variables")
      else
        match number? number with
        | some limit => readArguments ⟨some limit, .none, []⟩ more
        | .none => .error (.invalidValue "--max-variables" number) := by
  have hargument : Argument.ofText "--max-variables" = .variableLimit .none := by decide
  rw [Request.ofArguments, readArguments, hargument]
  dsimp only
  split
  · next error htake =>
    rw [takeValue_next] at htake
    split at htake
    · next hoption =>
      rw [if_pos hoption, ← Except.error.inj htake]
    · cases htake
  · next value rest htake =>
    rw [takeValue_next] at htake
    split at htake
    · cases htake
    · next hoption =>
      obtain ⟨rfl, rfl⟩ := Prod.mk.inj (Except.ok.inj htake)
      rw [if_neg hoption, withVariableLimit_none]
      cases number? number <;> rfl

/-- What is relied on when arguments are read. -/
structure ReadsArguments (read : List String → Except UsageError Request) : Prop where
  /-- A limit does not take the place of expressions. -/
  limit_alone : ∀ number limit, number? number = some limit →
    ∃ options, read ["--max-variables", number] = .ok (.tabulate options) ∧
      options.variableLimit = limit ∧ options.expressions = []
  /-- Behind `--` there is nothing but expressions. -/
  limit_expressions : ∀ number limit, number? number = some limit → ∀ expressions,
    ∃ options, read ("--max-variables" :: number :: "--" :: expressions) = .ok (.tabulate options) ∧
      options.variableLimit = limit ∧ options.expressions = expressions
  /-- Whatever follows, nothing but a number is a limit. -/
  no_limit : ∀ number, number? number = none →
    ∃ error, ∀ more, read ("--max-variables" :: number :: more) = .error error

theorem readArguments_nil (options : Options) : readArguments options [] = .ok (.tabulate options) := by
  rw [readArguments]

theorem readArguments_endOfOptions (options : Options) (more : List String) :
    readArguments options ("--" :: more) = .ok (.tabulate (options.withExpressions more)) := by
  have hargument : Argument.ofText "--" = .endOfOptions := by decide
  rw [readArguments, hargument]

theorem ofArguments_of_number? {number : String} {limit : Nat} (h : number? number = some limit)
    (more : List String) :
    Request.ofArguments ("--max-variables" :: number :: more)
      = readArguments ⟨some limit, .none, []⟩ more := by
  rw [ofArguments_limit, looksLikeOption_of_number? h, if_neg Bool.false_ne_true, h]

theorem ofArguments_reads : ReadsArguments Request.ofArguments where
  limit_alone number limit h := by
    refine ⟨⟨some limit, .none, []⟩, ?_, rfl, rfl⟩
    rw [ofArguments_of_number? h, readArguments_nil]
  limit_expressions number limit h expressions := by
    refine ⟨⟨some limit, .none, expressions⟩, ?_, rfl, rfl⟩
    rw [ofArguments_of_number? h, readArguments_endOfOptions]
    rfl
  no_limit number h := by
    by_cases hoption : Argument.looksLikeOption number = true
    · refine ⟨.missingValue "--max-variables", fun more => ?_⟩
      rw [ofArguments_limit, if_pos hoption]
    · refine ⟨.invalidValue "--max-variables" number, fun more => ?_⟩
      rw [ofArguments_limit, if_neg hoption, h]

/-! ## Runs -/

theorem expressionsOf_eq {input : String} {lines : List String} (h : Lines input.toList lines) :
    expressionsOf input = lines.filter fun line => Text.trim line.toList ≠ [] := by
  rw [expressionsOf, h.linesAfter_eq]
  refine List.filter_congr fun line _ => ?_
  rw [Bool.eq_iff_iff, Bool.not_eq_true', Bool.eq_false_iff, ne_eq, Text.isBlankLine_iff,
    decide_eq_true_iff]

section

variable {read : List String → Except UsageError Request} {number : String} {limit : Nat}

/-- Without expressions among the arguments, those of the input make the batch. -/
theorem runWith_input (hread : ReadsArguments read) (hnumber : number? number = some limit)
    (input : String) :
    runWith read ["--max-variables", number] input = .ok (.ofBatch limit (expressionsOf input)) := by
  obtain ⟨options, hoptions, hlimit, hexpressions⟩ := hread.limit_alone number limit hnumber
  rw [runWith, hoptions]
  show Except.ok (Request.report (.tabulate options) input) = _
  rw [Request.report, hlimit, hexpressions]
  rfl

/-- With expressions among the arguments, the input has no part in the report. -/
theorem runWith_expressions (hread : ReadsArguments read) (hnumber : number? number = some limit)
    {expressions : List String} (h : expressions ≠ []) (input : String) :
    runWith read ("--max-variables" :: number :: "--" :: expressions) input
      = .ok (.ofBatch limit expressions) := by
  obtain ⟨options, hoptions, hlimit, hexpressions⟩ :=
    hread.limit_expressions number limit hnumber expressions
  rw [runWith, hoptions]
  show Except.ok (Request.report (.tabulate options) input) = _
  rw [Request.report, hlimit, hexpressions, List.isEmpty_eq_false_iff.2 h]
  rfl

end

/-- The command does the same with the expressions in its input as with the same expressions
behind `--`, where they may look like options, whatever its input is then, and even if it takes
no limit from `number`. These expressions are the lines of the input of which something is left
when they are trimmed, as they are. If there are none, nothing is shown. -/
theorem run_input {read : List String → Except UsageError Request} (hread : ReadsArguments read)
    (input number : String) :
    (∀ limit ≤ largestNumber, number? (toString limit) = some limit) ∧
    ∃ lines, (∀ others, Lines input.toList others ↔ others = lines) ∧
      ∀ expressions, lines.filter (fun line => Text.trim line.toList ≠ []) = expressions →
        (expressions ≠ [] → ∀ other,
          runWith read ("--max-variables" :: number :: "--" :: expressions) other
            = runWith read ["--max-variables", number] input) ∧
        ∀ limit, number? number = some limit →
          runWith read ["--max-variables", number] input = .ok (.ofBatch limit expressions) ∧
          (expressions = [] →
            runWith read ["--max-variables", number] input = .ok ⟨0, "", "", none⟩) := by
  refine ⟨fun _ => number?_toString, _, fun _ => lines_iff, ?_⟩
  intro expressions hexpressions
  rw [← expressionsOf_eq (lines_linesAfter _)] at hexpressions
  subst hexpressions
  refine ⟨fun hne other => ?_, fun limit hnumber => ?_⟩
  · cases hnumber : number? number with
    | none =>
      obtain ⟨error, herror⟩ := hread.no_limit number hnumber
      rw [runWith, runWith, herror, herror]
      rfl
    | some limit => rw [runWith_expressions hread hnumber hne, runWith_input hread hnumber]
  · refine ⟨runWith_input hread hnumber input, fun hnil => ?_⟩
    rw [runWith_input hread hnumber, hnil]
    rfl

/-- Of three lines the second is blank; the last one begins with a hyphen and keeps its carriage
return, since no line feed follows. -/
theorem run_input_hyphen :
    run ["--max-variables", "2", "--", "p", "-q\r"] "r"
        = run ["--max-variables", "2"] "p\r\n \n-q\r" ∧
      run ["--max-variables", "2"] "p\r\n \n-q\r" = .ok (.ofBatch 2 ["p", "-q\r"]) := by
  obtain ⟨-, lines, hlines, hruns⟩ := run_input ofArguments_reads "p\r\n \n-q\r" "2"
  have hthree : Lines "p\r\n \n-q\r".toList ["p", " ", "-q\r"] := lines_iff.2 (by decide)
  obtain rfl := (hlines _).1 hthree
  obtain ⟨hsame, hlimit⟩ := hruns ["p", "-q\r"] (by decide +kernel)
  exact ⟨hsame (List.cons_ne_nil _ _) "r", (hlimit 2 (by decide +kernel)).1⟩

end Command

end TruthTable
