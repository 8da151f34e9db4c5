import Mathlib.Data.List.Nodup
import TruthTable.Proofs.Evaluation
import TruthTable.Proofs.Registration

/-!
# Slots stay

Everything that is done with variables comes down to two edits: they are emptied, or a name is
registered. A token that is taken registers its name, if it has one; to begin with a source, to
cut it into tokens or to read a formula empties the variables first, and what is registered then
does not depend on what they held, nor on whether the reading succeeds (`Variables.after_eq`).

Between two times that the variables are emptied, names are only added, and at the end. So a
slot, once given, belongs to its name until then, and a formula that has a value keeps it when
more names and more truth values come in (`Formula.evaluate_of_prefix`).

To find a slot quickly, names and slots can be kept in two containers, a list of names and a
hash map of slots. `NameTable` is that: under all edits, each of its containers is the inverse of
the other, and they answer as `Variables` do (`NameTable.Keeps`).

Main statement: `Variables.run_keeps`.
-/

namespace TruthTable

/-! ## Edits -/

/-- What can change the variables. -/
inductive Edit where
  | clear
  | register (name : String)
deriving DecidableEq

/-- The edits that a token makes when it is taken. -/
def Token.edits (t : Token) : List Edit :=
  if t.kind = .identifier then [.register t.text] else []

theorem Token.clear_notMem_edits (t : Token) : .clear ∉ t.edits := by
  unfold edits
  split
  · exact fun hmem => nomatch List.mem_singleton.1 hmem
  · exact List.not_mem_nil

namespace Variables

variable {vs vs' : Variables} {name : String}

/-- The variables after an edit. -/
def edit (vs : Variables) : Edit → Variables
  | .clear => vs.clear
  | .register name => (vs.register name).2

/-- The variables after some edits. -/
def editAll (vs : Variables) (edits : List Edit) : Variables := edits.foldl edit vs

theorem editAll_append (vs : Variables) (edits more : List Edit) :
    vs.editAll (edits ++ more) = (vs.editAll edits).editAll more := List.foldl_append

theorem editAll_edits (vs : Variables) (t : Token) : vs.editAll t.edits = vs.note t := by
  unfold note Token.edits
  split <;> rfl

theorem editAll_flatMap_edits (vs : Variables) (ts : List Token) :
    vs.editAll (ts.flatMap Token.edits) = vs.noteAll ts := by
  induction ts generalizing vs with
  | nil => rfl
  | cons t ts ih => rw [List.flatMap_cons, editAll_append, editAll_edits, ih, noteAll_cons]

theorem nodup_editAll (h : vs.names.Nodup) (edits : List Edit) : (vs.editAll edits).names.Nodup := by
  induction edits generalizing vs with
  | nil => exact h
  | cons e edits ih =>
    cases e with
    | clear => exact ih List.nodup_nil
    | register name => exact ih (nodup_register h name)

/-- As long as they are not emptied, the names only grow at the end. -/
theorem prefix_editAll (vs : Variables) {edits : List Edit} (h : .clear ∉ edits) :
    vs.names <+: (vs.editAll edits).names := by
  induction edits generalizing vs with
  | nil => exact List.prefix_rfl
  | cons e edits ih =>
    have hedits : .clear ∉ edits := fun hmem => h (List.mem_cons_of_mem e hmem)
    cases e with
    | clear => exact absurd List.mem_cons_self h
    | register name => exact (prefix_register vs name).trans (ih _ hedits)

theorem slot?_append (names more : List String) (name : String) :
    (⟨names ++ more⟩ : Variables).slot? name
      = ((⟨names⟩ : Variables).slot? name).or
        (((⟨more⟩ : Variables).slot? name).map (· + names.length)) := List.findIdx?_append

theorem slot?_singleton_self (name : String) : (⟨[name]⟩ : Variables).slot? name = some 0 := by
  rw [slot?, List.idxOf?_cons, if_pos (beq_self_eq_true name)]

/-- More names at the end leave a slot to its name. -/
theorem slot?_of_prefix (h : vs.names <+: vs'.names) {slot : Nat} (hslot : vs.slot? name = some slot) :
    vs'.slot? name = some slot := by
  obtain ⟨names⟩ := vs
  obtain ⟨names'⟩ := vs'
  obtain ⟨more, rfl⟩ : names <+: names' := h
  rw [slot?_append, hslot, Option.some_or]

/-- More names and more truth values leave a name its value. -/
theorem value?_of_prefix (h : vs.names <+: vs'.names) {valuation longer : Valuation}
    (hlonger : valuation <+: longer) {value : Bool} (hvalue : vs.value? valuation name = some value) :
    vs'.value? longer name = some value := by
  obtain ⟨slot, hslot, hget⟩ := Option.bind_eq_some_iff.1 hvalue
  obtain ⟨hlt, rfl⟩ := List.getElem?_eq_some_iff.1 hget
  rw [value?, slot?_of_prefix h hslot, Option.bind_some]
  exact List.prefix_iff_getElem?.1 hlonger slot hlt

end Variables

/-- A formula with a value has it under more names and more truth values too. -/
theorem Formula.evaluate_of_prefix {vs vs' : Variables} {valuation longer : Valuation}
    (hnames : vs.names <+: vs'.names) (hlonger : valuation <+: longer) {f : Formula} {value : Bool}
    (h : f.evaluate vs valuation = .ok value) : f.evaluate vs' longer = .ok value := by
  rw [← h]
  refine evaluate_congr fun name hname => ?_
  obtain ⟨nameValue, hvalue⟩ :=
    Variables.exists_value_of_firstFault? (evaluate_eq_ok_iff.1 h).1 name hname
  rw [hvalue, Variables.value?_of_prefix hnames hlonger hvalue]

/-! ## A list and a hash map -/

/-- Names in the order in which they were registered, and the slot of each. -/
structure NameTable where
  names : Array String
  positions : Std.HashMap String Nat

namespace NameTable

/-- No names. -/
def empty : NameTable := ⟨#[], ∅⟩

/-- The slot of a name. -/
def position? (table : NameTable) (name : String) : Option Nat := table.positions[name]?

/-- The slot of a name. If it is new, it is added to both containers. -/
def register (table : NameTable) (name : String) : Nat × NameTable :=
  match table.position? name with
  | some position => (position, table)
  | none =>
    (table.names.size,
      ⟨table.names.push name, table.positions.insert name table.names.size⟩)

/-- The table after an edit. -/
def edit (table : NameTable) : Edit → NameTable
  | .clear => empty
  | .register name => (table.register name).2

/-- The table after some edits. -/
def editAll (table : NameTable) (edits : List Edit) : NameTable := edits.foldl edit table

/-- The table holds the names of `vs`, and finds the same slots. -/
structure Keeps (table : NameTable) (vs : Variables) : Prop where
  names_eq : table.names.toList = vs.names
  position?_eq : ∀ name, table.position? name = vs.slot? name

theorem keeps_empty : empty.Keeps .empty := ⟨rfl, fun _ => Std.HashMap.getElem?_empty⟩

namespace Keeps

variable {table : NameTable} {vs : Variables}

theorem size_eq (h : table.Keeps vs) : table.names.size = vs.count := by
  rw [← Array.length_toList, h.names_eq, Variables.count]

/-- The same slot is answered, and the tables go on alike. -/
theorem register (h : table.Keeps vs) (name : String) :
    (table.register name).1 = (vs.register name).1 ∧
      (table.register name).2.Keeps (vs.register name).2 := by
  rw [NameTable.register, Variables.register, h.position?_eq]
  cases hslot : vs.slot? name with
  | some slot => exact ⟨rfl, h⟩
  | none =>
    refine ⟨h.size_eq, ?_, fun other => ?_⟩
    · show (table.names.push name).toList = vs.names ++ [name]
      rw [Array.toList_push, h.names_eq]
    · show (table.positions.insert name table.names.size)[other]? = _
      rw [Std.HashMap.getElem?_insert, Variables.slot?_append, h.size_eq]
      by_cases heq : name = other
      · subst heq
        rw [if_pos (beq_self_eq_true name), hslot, Variables.slot?_singleton_self, Option.none_or,
          Option.map_some, Nat.zero_add, Variables.count]
      · have hne : ¬(name == other) = true := fun h => heq (beq_iff_eq.1 h)
        have hnone : (⟨[name]⟩ : Variables).slot? other = none :=
          Variables.slot?_eq_none_iff.2 fun hmem => heq (List.mem_singleton.1 hmem).symm
        rw [if_neg hne, hnone, Option.map_none, Option.or_none]
        exact h.position?_eq other

theorem edit (h : table.Keeps vs) (e : Edit) : (table.edit e).Keeps (vs.edit e) := by
  cases e with
  | clear => exact keeps_empty
  | register name => exact (h.register name).2

theorem editAll (h : table.Keeps vs) (edits : List Edit) :
    (table.editAll edits).Keeps (vs.editAll edits) := by
  induction edits generalizing table vs with
  | nil => exact h
  | cons e edits ih => exact ih (h.edit e)

/-- Each container is the inverse of the other. -/
theorem position?_eq_some_iff (h : table.Keeps vs) (hnodup : vs.names.Nodup) {name : String}
    {slot : Nat} : table.position? name = some slot ↔ table.names[slot]? = some name := by
  rw [h.position?_eq, Variables.slot?_eq_some_iff hnodup, ← h.names_eq, Array.getElem?_toList]

end Keeps

end NameTable

/-! ## Uses -/

/-- The tokens that reading a formula takes, all or those before an error. -/
def readTokens (source : String) : List Token :=
  (tokens source).take ((tokens source).length
    - (Rules.standard.read .lowest (Reader.start .empty source)).rest.pending.length)

theorem seen_parse (vs : Variables) (source : String) :
    (parse vs source).2 = vs.clear.noteAll (readTokens source) := by
  obtain ⟨ts, hts⟩ := Rules.standard.read_follows .lowest (Reader.start .empty source)
  have htokens : tokens source = ts ++ _ := hts.pending_eq
  have hread : readTokens source = ts := by
    rw [readTokens, htokens, List.length_append, Nat.add_sub_cancel, List.take_left]
  have hseen : (parse .empty source).2
      = (Rules.standard.read .lowest (Reader.start .empty source)).rest.seen := by
    rw [parse]
    cases Rules.standard.read .lowest (Reader.start .empty source) with
    | failed error rest => rfl
    | done f rest shorter =>
      dsimp only [Outcome.rest]
      cases rest.pending <;> rfl
  rw [parse_congr vs .empty, hseen, hts.seen_eq, hread]
  rfl

/-- What is done with variables. -/
inductive Use where
  | register (name : String)
  | clear
  | restart (source : String)
  | next (stream : TokenStream)
  | tokenize (source : String)
  | parse (source : String)

namespace Use

/-- Whether the variables are emptied. -/
def clears : Use → Bool
  | register _ | next _ => false
  | clear | restart _ | tokenize _ | parse _ => true

/-- The edits that come of it. -/
def edits : Use → List Edit
  | register name => [.register name]
  | clear | restart _ => [.clear]
  | next stream =>
    match stream.next? with
    | some (t, _) => t.edits
    | none => []
  | tokenize source => .clear :: (tokens source).flatMap Token.edits
  | parse source => .clear :: (readTokens source).flatMap Token.edits

end Use

namespace Variables

/-- The variables after they have been used. -/
def after (vs : Variables) : Use → Variables
  | .register name => (vs.register name).2
  | .clear => vs.clear
  | .restart source => (TokenStream.restart vs source).2
  | .next stream =>
    match stream.read? vs with
    | some (_, _, seen) => seen
    | none => vs
  | .tokenize source => (tokenize vs source).2
  | .parse source => (parse vs source).2

/-- The variables after several uses. -/
def run (vs : Variables) (uses : List Use) : Variables := uses.foldl after vs

theorem after_eq (vs : Variables) (u : Use) : vs.after u = vs.editAll u.edits := by
  cases u with
  | register name => rfl
  | clear => rfl
  | restart source => rfl
  | next stream =>
    rw [after, TokenStream.read?, Use.edits]
    cases stream.next? with
    | none => rfl
    | some step => exact (editAll_edits vs step.1).symm
  | tokenize source => exact (editAll_flatMap_edits vs.clear (tokens source)).symm
  | parse source =>
    rw [after, seen_parse]
    exact (editAll_flatMap_edits vs.clear (readTokens source)).symm

end Variables

theorem Use.clear_notMem_edits {u : Use} (h : u.clears = false) : .clear ∉ u.edits := by
  cases u with
  | register name => exact fun hmem => nomatch List.mem_singleton.1 hmem
  | next stream =>
    rw [edits]
    cases stream.next? with
    | none => exact List.not_mem_nil
    | some step => exact step.1.clear_notMem_edits
  | clear | restart | tokenize | parse => cases h

namespace Variables

theorem run_eq (vs : Variables) (uses : List Use) :
    vs.run uses = vs.editAll (uses.flatMap Use.edits) := by
  induction uses generalizing vs with
  | nil => rfl
  | cons u uses ih =>
    rw [List.flatMap_cons, editAll_append, ← after_eq, ← ih]
    rfl

/-- Uses that do not empty the variables only add names at the end. -/
theorem prefix_run (vs : Variables) {uses : List Use} (h : ∀ u ∈ uses, u.clears = false) :
    vs.names <+: (vs.run uses).names := by
  rw [run_eq]
  refine prefix_editAll vs fun hmem => ?_
  obtain ⟨u, hu, hclear⟩ := List.mem_flatMap.1 hmem
  exact Use.clear_notMem_edits (h u hu) hclear

/-- However variables have been used, no name stands twice, the slots are the places of the
names, and a name that is registered has the slot that is answered. A list and a hash map that
are kept by the same edits are inverse to each other and answer alike. And as long as the
variables are not emptied again, a name keeps its slot and a formula its value, under any
valuation that goes on where the first one ends. -/
theorem run_keeps {uses : List Use} {vs : Variables} (h : empty.run uses = vs) :
    vs.names.Nodup ∧
    (∀ name slot, vs.slot? name = some slot ↔ slot < vs.count ∧ vs.names[slot]? = some name) ∧
    (∀ name, (vs.register name).2.slot? name = some (vs.register name).1) ∧
    vs.count = vs.names.length ∧ (vs.isEmpty = true ↔ vs.count = 0) ∧
    (∃ table, NameTable.empty.editAll (uses.flatMap Use.edits) = table ∧
      vs = empty.editAll (uses.flatMap Use.edits) ∧ table.names.toList = vs.names ∧
      (∀ name slot, table.position? name = some slot ↔ table.names[slot]? = some name) ∧
      (∀ name, table.position? name = vs.slot? name) ∧
      ∀ name, (table.register name).1 = (vs.register name).1) ∧
    ∀ more : List Use, (∀ u ∈ more, u.clears = false) →
      vs.names <+: (vs.run more).names ∧
      (∀ name slot, vs.slot? name = some slot → (vs.run more).slot? name = some slot) ∧
      ∀ f valuation longer value, Formula.evaluate vs valuation f = .ok value →
        valuation <+: longer → f.evaluate (vs.run more) longer = .ok value := by
  have hedits : empty.editAll (uses.flatMap Use.edits) = vs := (run_eq _ _).symm.trans h
  have hnodup : vs.names.Nodup := hedits ▸ nodup_editAll List.nodup_nil _
  have hkeeps : (NameTable.empty.editAll (uses.flatMap Use.edits)).Keeps vs :=
    hedits ▸ NameTable.keeps_empty.editAll _
  refine ⟨hnodup, fun name slot => ?_, slot?_register hnodup, rfl, ?_, ?_, fun more hmore => ?_⟩
  · rw [slot?_eq_some_iff hnodup]
    refine ⟨fun hget => ⟨?_, hget⟩, And.right⟩
    exact (List.getElem?_eq_some_iff.1 hget).1
  · rw [isEmpty, count, List.isEmpty_iff, List.length_eq_zero_iff]
  · exact ⟨_, rfl, hedits.symm, hkeeps.names_eq, fun _ _ => hkeeps.position?_eq_some_iff hnodup,
      hkeeps.position?_eq, fun name => (hkeeps.register name).1⟩
  · have hgrows := prefix_run vs hmore
    exact ⟨hgrows, fun _ _ => slot?_of_prefix hgrows,
      fun _ _ _ _ hvalue hlonger => Formula.evaluate_of_prefix hgrows hlonger hvalue⟩

/-- Reading forgets `o` and stops before `r`; the slot and the value of `q` are the same when `t`
has come in as well. -/
theorem run_keeps_after_error :
    ∃ vs, empty.run [.register "o", .parse "(p ∧ q r", .register "s"] = vs ∧
      vs.names = ["p", "q", "s"] ∧
      (Formula.atom "q" ⟨7, 8⟩).evaluate vs [true, false] = .ok false ∧
      (Formula.atom "q" ⟨7, 8⟩).evaluate
        (vs.run [.next (TokenStream.start "t"), .register "q"]) [true, false, true] = .ok false := by
  have hrun : empty.run [.register "o", .parse "(p ∧ q r", .register "s"] = ⟨["p", "q", "s"]⟩ := by
    decide +kernel
  obtain ⟨-, -, -, -, -, -, hmore⟩ := run_keeps hrun
  obtain ⟨-, -, hvalue⟩ := hmore [.next (TokenStream.start "t"), .register "q"] (by decide)
  exact ⟨_, hrun, rfl, rfl, hvalue _ [true, false] _ _ rfl ⟨[true], rfl⟩⟩

end Variables

end TruthTable
