import TruthTable.Proofs.Evaluation
import TruthTable.Proofs.Names
import TruthTable.Proofs.Scan
import TruthTable.Proofs.Cursor
import TruthTable.Table.Basic

/-!
# The table of a source

What stands in the way of a table is told in this order: an error of reading, too many
names, an assignment. With nothing in the way the table is complete, and it is classical:
`Formula.table` has a row for each valuation of the names, in the order of `valuationsOf`,
and the truth of the formula in its last column.

Reading registers the names by the order of the tokens, and evaluation finds their values by
slot. The two agree because a row is a valuation of distinct names, which is a valuation by
name (`Variables.map_lookup`), so one case over the parts of the formula serves all rows.

Main statement: `Table.build_outcome`.
-/

namespace TruthTable

/-! ## All rows -/

namespace Table

variable {vs : Variables} {f : Formula} {valuations : List Valuation}

/-- Rows for valuations that all have a value. -/
theorem rowsOf_eq_ok {value : Valuation → Bool}
    (h : ∀ valuation ∈ valuations, f.evaluate vs valuation = .ok (value valuation)) :
    rowsOf vs f valuations = .ok (valuations.map fun valuation => ⟨valuation, value valuation⟩) := by
  refine mapM_eq_ok fun valuation hvaluation => ?_
  rw [h valuation hvaluation]
  rfl

/-- The first row decides the error. -/
theorem rowsOf_eq_error {error : Error} (hne : valuations ≠ [])
    (h : ∀ valuation ∈ valuations, f.evaluate vs valuation = .error error) :
    rowsOf vs f valuations = .error error := by
  obtain ⟨valuation, rest, rfl⟩ := List.exists_cons_of_ne_nil hne
  rw [rowsOf, List.mapM_cons, h valuation List.mem_cons_self]
  rfl

end Table

/-! ## The classical table -/

/-- The rows of the valuations of the names, each with the truth of the formula. -/
def Formula.rows (f : Formula) (vs : Variables) : List Row :=
  (valuationsOf vs.count).map fun v => ⟨v, decide (f.Holds (vs.lookup v))⟩

/-- The classical truth table of a formula. -/
def Formula.table (f : Formula) (source : String) (vs : Variables) : Table :=
  ⟨vs.names, source, f.rows vs⟩

/-- The table says of all truth values of the names whether the formula holds. Its columns are
named by `names` and `source`, which is the text of the formula. -/
structure Table.Tells (table : Table) (names : List String) (source : String) (f : Formula) :
    Prop where
  header_eq : table.header = names ++ [source]
  nodup_names : names.Nodup
  names_pos : 1 ≤ names.length
  rowCount_eq : table.rowCount = 2 ^ names.length
  length_row : ∀ row ∈ table.rows, row.values.length = names.length + 1
  /-- One row and no other begins with the values that `ρ` gives to the names. -/
  row_eq : ∀ ρ : String → Bool,
    table.rows.filter (fun row => row.values.take names.length = names.map ρ)
      = [⟨names.map ρ, decide (f.Holds ρ)⟩]

/-- What is made of a formula where there is room for its rows: its classical table, or the error
that it has an assignment in it. -/
def Formula.tabulate (f : Formula) (source : String) (vs : Variables) : Except Error Table :=
  match f.firstAssignment? with
  | some g => .error ⟨.noTruthValue "Assignment", g.span.start⟩
  | none => .ok (f.table source vs)

namespace Formula

variable {vs : Variables} {f : Formula}

theorem length_of_mem_rows {row : Row} (h : row ∈ f.rows vs) : row.valuation.length = vs.count := by
  obtain ⟨v, hv, rfl⟩ := List.mem_map.1 h
  exact mem_valuationsOf.1 hv

/-- The row of some truth values of the names. -/
theorem filter_rows (hnames : ∀ name ∈ f.names, name ∈ vs.names) (ρ : String → Bool) :
    (f.rows vs).filter (fun row => row.valuation = vs.names.map ρ)
      = [⟨vs.names.map ρ, decide (f.Holds ρ)⟩] := by
  have hlength : (vs.names.map ρ).length = vs.count := List.length_map _
  rw [rows, List.filter_map]
  show ((valuationsOf vs.count).filter (· = vs.names.map ρ)).map _ = _
  rw [filter_valuationsOf hlength, List.map_singleton, decide_eq_decide.2 (holds_lookup_map hnames ρ)]

theorem table_tells (source : String) (hnodup : vs.names.Nodup) (hne : vs.names ≠ [])
    (hnames : ∀ name ∈ f.names, name ∈ vs.names) :
    (f.table source vs).Tells vs.names source f where
  header_eq := rfl
  nodup_names := hnodup
  names_pos := List.length_pos_iff.2 hne
  rowCount_eq := by
    show (f.rows vs).length = 2 ^ vs.count
    rw [rows, List.length_map, length_valuationsOf]
  length_row := by
    intro row hrow
    rw [Row.values, List.length_append, length_of_mem_rows hrow]
    rfl
  row_eq := by
    intro ρ
    rw [← filter_rows hnames ρ]
    apply List.filter_congr
    intro row hrow
    have htake : row.values.take vs.names.length = row.valuation :=
      List.take_left' (length_of_mem_rows hrow)
    rw [htake]

/-- All results are true exactly if the formula is a tautology. -/
theorem results_table_iff (source : String) (hnames : ∀ name ∈ f.names, name ∈ vs.names) :
    (∀ result ∈ (f.table source vs).results, result = true) ↔ ∀ ρ, f.Holds ρ := by
  constructor
  · intro h ρ
    have hmem : (⟨vs.names.map ρ, decide (f.Holds ρ)⟩ : Row)
        ∈ (f.rows vs).filter fun row => row.valuation = vs.names.map ρ := by
      rw [filter_rows hnames ρ]
      exact List.mem_singleton_self _
    exact of_decide_eq_true (h _ (List.mem_map_of_mem (List.mem_filter.1 hmem).1))
  · intro h result hresult
    obtain ⟨row, hrow, rfl⟩ := List.mem_map.1 hresult
    obtain ⟨v, -, rfl⟩ := List.mem_map.1 hrow
    exact decide_eq_true (h _)

end Formula

/-! ## Making the table -/

namespace Table

variable {vs : Variables} {f : Formula} {source : String}

theorem ofFormula_of_lt {limit : Nat} (h : min limit 63 < vs.count) :
    ofFormula limit source vs f = .returns (.error ⟨.tooManyVariables vs.count (min limit 63), 0⟩) :=
  if_neg (Nat.not_le_of_lt h)

/-- All rows of a formula, or its first assignment. -/
theorem rowsOf_valuationsOf (source : String) (hnodup : vs.names.Nodup)
    (hnames : ∀ name ∈ f.names, name ∈ vs.names) :
    (rowsOf vs f (valuationsOf vs.count)).map (fun rows => ⟨vs.names, source, rows⟩)
      = f.tabulate source vs := by
  have heval : ∀ v ∈ valuationsOf vs.count, f.evaluate vs v =
      match f.firstAssignment? with
      | some g => .error ⟨.noTruthValue "Assignment", g.span.start⟩
      | none => .ok (decide (f.Holds (vs.lookup v))) := by
    intro v hv
    have hmap := Formula.evaluate_map hnames (vs.lookup v)
    rwa [Variables.map_lookup hnodup (mem_valuationsOf.1 hv)] at hmap
  have hne : valuationsOf vs.count ≠ [] := by
    rw [← List.length_pos_iff, length_valuationsOf]
    exact Nat.two_pow_pos _
  rw [Formula.tabulate]
  cases hfind : f.firstAssignment? with
  | some g =>
    rw [hfind] at heval
    rw [rowsOf_eq_error hne heval]
    rfl
  | none =>
    rw [hfind] at heval
    rw [rowsOf_eq_ok heval]
    rfl

/-- Within the limit, there is a table unless the formula has an assignment in it, as long as there
is room for all rows. -/
theorem ofFormula_of_le {limit : Nat} (h : vs.count ≤ min limit 63) (hnodup : vs.names.Nodup)
    (hnames : ∀ name ∈ f.names, name ∈ vs.names) :
    ofFormula limit source vs f
      = if vs.count ≤ 58 then .returns (f.tabulate source vs) else .panics := by
  have hcount : vs.count ≤ Valuations.variableLimit := Nat.le_trans h (Nat.min_le_right limit 63)
  rw [ofFormula]
  show (if vs.count ≤ min limit 63 then _ else _) = _
  rw [if_pos h, Valuations.start?_eq hcount]
  show (reserveRows (Valuations.atRow vs.count 0).remaining).map _ = _
  rw [reserveRows_start hcount, toList_start hcount, rowsOf_valuationsOf source hnodup hnames]
  split <;> rfl

variable {limit : Nat}

theorem build_of_error {error : Error} (h : (parse .empty source).1 = .error error) :
    build limit source = .returns (.error error) := by
  rw [build]
  generalize parse .empty source = result at h
  obtain ⟨outcome, vs⟩ := result
  cases h
  rfl

theorem build_of_ok {f : Formula} (h : (parse .empty source).1 = .ok f) :
    build limit source = ofFormula limit source ⟨namesIn source⟩ f := by
  have hparse : parse .empty source = (.ok f, (parse .empty source).2) := Prod.ext h rfl
  rw [build, hparse, seen_eq_namesIn hparse]

/-- What is built from a source that is read. -/
theorem build_eq (h : (parse .empty source).1 = .ok f) :
    build limit source =
      if (namesIn source).length ≤ min limit 63 then
        if (namesIn source).length ≤ 58 then
          .returns (f.tabulate source ⟨namesIn source⟩)
        else
          .panics
      else
        .returns (.error ⟨.tooManyVariables (namesIn source).length (min limit 63), 0⟩) := by
  rw [build_of_ok h]
  split
  · next hle =>
    exact ofFormula_of_le hle (nodup_namesIn source) fun name hname => (mem_namesIn h).2 hname
  · next hlt => exact ofFormula_of_lt (Nat.lt_of_not_le hlt)

/-- Whatever is returned for a source that is read is its table or its first assignment, or that
there are too many names. -/
theorem eq_of_build_returns {built : Except Error Table} (hparse : (parse .empty source).1 = .ok f)
    (h : build limit source = .returns built) :
    built = f.tabulate source ⟨namesIn source⟩ ∨
      built = .error ⟨.tooManyVariables (namesIn source).length (min limit 63), 0⟩ := by
  rw [build_eq hparse] at h
  split at h
  · split at h <;> cases h
    exact Or.inl rfl
  · cases h
    exact Or.inr rfl

/-- A panic is about the number of names only. -/
theorem build_eq_panics_iff :
    build limit source = .panics ↔ (∃ f, (parse .empty source).1 = .ok f) ∧
      59 ≤ (namesIn source).length ∧ (namesIn source).length ≤ min limit 63 := by
  cases hparse : (parse .empty source).1 with
  | error error =>
    rw [build_of_error hparse]
    exact ⟨nofun, fun h => nomatch h.1⟩
  | ok f =>
    rw [build_eq hparse]
    by_cases hcount : (namesIn source).length ≤ min limit 63
    · by_cases hroom : (namesIn source).length ≤ 58
      · rw [if_pos hcount, if_pos hroom]
        refine ⟨nofun, fun h => ?_⟩
        omega
      · rw [if_pos hcount, if_neg hroom]
        exact ⟨fun _ => ⟨⟨f, rfl⟩, by omega, hcount⟩, fun _ => rfl⟩
    · rw [if_neg hcount]
      exact ⟨nofun, fun h => absurd h.2.2 hcount⟩

/-- The table that is built from a source tells all about its formula. -/
theorem tells_of_parse (h : (parse .empty source).1 = .ok f) :
    (f.table source ⟨namesIn source⟩).Tells (namesIn source) source f :=
  Formula.table_tells source (nodup_namesIn source) (namesIn_ne_nil h)
    fun _ hname => (mem_namesIn h).2 hname

theorem eq_table_of_build {table : Table} (hparse : (parse .empty source).1 = .ok f)
    (h : build limit source = .returns (.ok table)) :
    table = f.table source ⟨namesIn source⟩ := by
  rcases eq_of_build_returns hparse h with htable | htoo
  · rw [Formula.tabulate] at htable
    split at htable <;> cases htable
    rfl
  · cases htoo

/-- A higher limit makes a difference only where there are too many names for the lower one. -/
theorem build_le_limit {limit' : Nat} (hle : limit ≤ limit') :
    build limit' source = build limit source ∨ build limit source =
      .returns (.error ⟨.tooManyVariables (namesIn source).length (min limit 63), 0⟩) := by
  cases hparse : (parse .empty source).1 with
  | error error => exact Or.inl ((build_of_error hparse).trans (build_of_error hparse).symm)
  | ok f =>
    rw [build_eq hparse, build_eq hparse]
    by_cases hcount : (namesIn source).length ≤ min limit 63
    · have hcount' : (namesIn source).length ≤ min limit' 63 := by omega
      rw [if_pos hcount, if_pos hcount']
      exact Or.inl rfl
    · rw [if_neg hcount]
      exact Or.inr rfl

/-- An error that is returned for a source that is read is about its first assignment, or about the
number of its names. -/
theorem eq_error_of_build {error : Error} (hparse : (parse .empty source).1 = .ok f)
    (h : build limit source = .returns (.error error)) :
    (∃ g, f.firstAssignment? = some g ∧ error = ⟨.noTruthValue "Assignment", g.span.start⟩) ∨
      error = ⟨.tooManyVariables (namesIn source).length (min limit 63), 0⟩ := by
  rcases eq_of_build_returns hparse h with hassignment | htoo
  · rw [Formula.tabulate] at hassignment
    split at hassignment <;> cases hassignment
    next g hg => exact Or.inl ⟨g, hg, rfl⟩
  · exact Or.inr (Except.error.inj htoo)

/-- Neither an unknown variable nor an unknown operator stands in the way of a table. -/
theorem cause_of_build {error : Error} (h : build limit source = .returns (.error error))
    (text : String) :
    error.cause ≠ .unknownVariable text ∧ error.cause ≠ .unknownOperator text := by
  rcases parse_cases .empty source with ⟨⟨f, hparse⟩, -⟩ | ⟨i, -, hparse⟩
  · rcases eq_error_of_build hparse h with ⟨g, -, rfl⟩ | rfl
    · exact ⟨nofun, nofun⟩
    · exact ⟨nofun, nofun⟩
  · rw [build_of_error hparse] at h
    cases h
    rcases faultAt_cause source (tokens source) i with hcause | hcause | ⟨_, hcause⟩
    · rw [hcause]
      exact ⟨nofun, nofun⟩
    · rw [hcause]
      exact ⟨nofun, nofun⟩
    · rw [hcause]
      exact ⟨nofun, nofun⟩

/-- What is built from a source: the error of reading it, or that there are too many names, or
that it has an assignment in it, the first one being named, or else the table that tells all
about its formula. So no name and no operator is ever unknown, all results are true exactly
for a tautology, and a higher limit changes nothing but that there are too many names. But for 59
names or more that are within the limit, there is no room for the rows, and that panics. -/
theorem build_outcome (limit : Nat) (source : String) :
    (∀ error, (parse .empty source).1 = .error error →
      build limit source = .returns (.error error)) ∧
    (∀ f, (parse .empty source).1 = .ok f →
      (min limit 63 < (namesIn source).length →
        build limit source =
          .returns (.error ⟨.tooManyVariables (namesIn source).length (min limit 63), 0⟩)) ∧
      ((namesIn source).length ≤ min limit 63 → (namesIn source).length ≤ 58 →
        (∀ g, f.firstAssignment? = some g →
          build limit source = .returns (.error ⟨.noTruthValue "Assignment", g.span.start⟩)) ∧
        (f.firstAssignment? = none → ∃ table,
          build limit source = .returns (.ok table) ∧ table.Tells (namesIn source) source f))) ∧
    (build limit source = .panics ↔ (∃ f, (parse .empty source).1 = .ok f) ∧
      59 ≤ (namesIn source).length ∧ (namesIn source).length ≤ min limit 63) ∧
    (∀ error, build limit source = .returns (.error error) → ∀ text,
      error.cause ≠ .unknownVariable text ∧ error.cause ≠ .unknownOperator text) ∧
    (∀ table f, build limit source = .returns (.ok table) → (parse .empty source).1 = .ok f →
      ((∀ result ∈ table.results, result = true) ↔ ∀ ρ, f.Holds ρ)) ∧
    ∀ limit', limit ≤ limit' →
      build limit' source = build limit source ∨ build limit source =
        .returns (.error ⟨.tooManyVariables (namesIn source).length (min limit 63), 0⟩) := by
  refine ⟨fun error h => build_of_error h, fun f hparse => ⟨?_, fun hle hroom => ⟨?_, ?_⟩⟩,
    build_eq_panics_iff, fun error h text => cause_of_build h text, ?_,
    fun limit' hle => build_le_limit hle⟩
  · intro hlt
    rw [build_eq hparse, if_neg (Nat.not_le_of_lt hlt)]
  · intro g hg
    rw [build_eq hparse, if_pos hle, if_pos hroom, Formula.tabulate, hg]
  · intro hnone
    refine ⟨_, ?_, tells_of_parse hparse⟩
    rw [build_eq hparse, if_pos hle, if_pos hroom, Formula.tabulate, hnone]
  · intro table f hbuild hparse
    rw [eq_table_of_build hparse hbuild]
    exact Formula.results_table_iff source fun name hname => (mem_namesIn hparse).2 hname

/-- The table of excluded middle has two rows, and both results are true. -/
theorem build_excluded_middle :
    ∃ table, build 63 "p ∨ ~p" = .returns (.ok table) ∧ table.rowCount = 2 ∧
      ∀ result ∈ table.results, result = true := by
  have hexists : ∃ f : Formula, (parse .empty "p ∨ ~p").1 = .ok f ∧
      f.firstAssignment? = none ∧ ∀ ρ, f.Holds ρ :=
    ⟨.binary .or (.atom "p" ⟨0, 1⟩) (.negation (.atom "p" ⟨7, 8⟩) ⟨6, 8⟩) ⟨0, 8⟩,
      by decide +kernel, rfl, fun ρ => Classical.em (ρ "p" = true)⟩
  obtain ⟨f, hparse, hnone, hholds⟩ := hexists
  have hnames : namesIn "p ∨ ~p" = ["p"] := by decide +kernel
  obtain ⟨-, hread, -, -, htautology, -⟩ := build_outcome 63 "p ∨ ~p"
  obtain ⟨-, hwithin⟩ := hread f hparse
  rw [hnames] at hwithin
  obtain ⟨table, hbuild, htells⟩ := (hwithin (by decide) (by decide)).2 hnone
  exact ⟨table, hbuild, htells.rowCount_eq, (htautology table f hbuild hparse).2 hholds⟩

/-! ## A source without an outcome

The source is given by its characters, since it takes long to decode a text of this length. -/

/-- The characters of `a = b ∧ c ∧ d`, and so on through 59 names of one letter or digit. -/
def wideChars : List Char :=
  "a = b".toList ++ "cdefghijklmnopqrstuvwxyzABCDEFGHIJKLMNOPQRSTUVWXYZ0123456".toList.flatMap
    fun c => [' ', '∧', ' ', c]

/-- An assignment with so many names that there is no room for the rows. -/
def wideAssignment : String := String.ofList wideChars

theorem tokens_ofList (chars : List Char) :
    tokens (String.ofList chars) = (⟨String.ofList chars, 0, chars⟩ : TokenStream).toList := by
  rw [tokens, TokenStream.start, String.toList_ofList]

theorem length_namesIn_wideAssignment : (namesIn wideAssignment).length = 59 := by
  rw [namesIn, wideAssignment, tokens_ofList]
  decide +kernel

theorem start_ofList (vs : Variables) (chars : List Char) :
    Reader.start vs (String.ofList chars)
      = ⟨String.ofList chars, (⟨String.ofList chars, 0, chars⟩ : TokenStream).toList, vs.clear⟩ := by
  rw [Reader.start, tokens_ofList]

/-- Parsing goes by the reader at the beginning, in whichever form it is known. -/
theorem parse_of_start {vs : Variables} {source : String} {r : Reader}
    (h : Reader.start vs source = r) :
    parse vs source =
      match Rules.standard.read .lowest r with
      | .failed error rest => (.error error, rest.seen)
      | .done f rest _ =>
        match rest.pending with
        | [] => (.ok f, rest.seen)
        | _ :: _ => (.error rest.unexpected, rest.seen) := by
  subst h
  rw [parse]
  cases Rules.standard.read .lowest (Reader.start vs source) with
  | failed error rest => rfl
  | done f rest shorter => rfl

/-- The assignment is the whole of the formula. -/
theorem exists_parse_wideAssignment :
    ∃ f g, (parse .empty wideAssignment).1 = .ok f ∧ f.firstAssignment? = some g ∧
      g.span.start = 0 := by
  have hstart : ((parse .empty wideAssignment).1.toOption.bind Formula.firstAssignment?).map
      (·.span.start) = some 0 := by
    refine (congrArg (fun result => (result.1.toOption.bind Formula.firstAssignment?).map
      (·.span.start)) (parse_of_start (start_ofList .empty wideChars))).trans ?_
    decide +kernel
  obtain ⟨g, hbind, hg⟩ := Option.map_eq_some_iff.1 hstart
  obtain ⟨f, hoption, hfirst⟩ := Option.bind_eq_some_iff.1 hbind
  refine ⟨f, g, ?_, hfirst, hg⟩
  cases hparse : (parse .empty wideAssignment).1 with
  | error error =>
    rw [hparse] at hoption
    cases hoption
  | ok f' =>
    rw [hparse] at hoption
    cases hoption
    rfl

theorem build_wideAssignment : build 63 wideAssignment = .panics := by
  obtain ⟨f, -, hparse, -⟩ := exists_parse_wideAssignment
  refine build_eq_panics_iff.2 ⟨⟨f, hparse⟩, ?_⟩
  rw [length_namesIn_wideAssignment]
  decide

/-- The source is an assignment and has no more than 63 names, but there is no error for it. -/
theorem wideAssignment_without_error :
    ∃ f g, (parse .empty wideAssignment).1 = .ok f ∧ f.firstAssignment? = some g ∧
      g.span.start = 0 ∧ (namesIn wideAssignment).length ≤ min 63 63 ∧
      build 63 wideAssignment = .panics ∧
      build 63 wideAssignment ≠ .returns (.error ⟨.noTruthValue "Assignment", g.span.start⟩) := by
  obtain ⟨f, g, hparse, hfirst, hstart⟩ := exists_parse_wideAssignment
  refine ⟨f, g, hparse, hfirst, hstart, ?_, build_wideAssignment, ?_⟩
  · rw [length_namesIn_wideAssignment]
    decide
  · rw [build_wideAssignment]
    exact nofun

end Table

end TruthTable
