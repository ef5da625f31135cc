/-! What one call of the lint engine found, file by file, and the totals that decide a run. -/
namespace LintGate

inductive Severity
  | warning | error
  deriving DecidableEq, Repr

def Severity.label : Severity → String
  | warning => "warning"
  | error => "error"

/- Lines and columns count from 1; 0 stands for a finding without a position. -/
structure Finding where
  line : Nat
  column : Nat
  severity : Severity
  text : String
  rule : Option String
  fatal : Bool
  deriving DecidableEq, Repr

/- The counts are the engine's own and need not agree with the findings listed. -/
structure FileReport where
  file : String
  errors : Nat
  warnings : Nat
  findings : List Finding
  deriving DecidableEq, Repr

abbrev Report := List FileReport

inductive Strictness
  | errors | warnings
  deriving DecidableEq, Repr

structure Summary where
  errors : Nat
  warnings : Nat
  files : Nat
  deriving DecidableEq, Repr

namespace Summary

def empty : Summary := ⟨0, 0, 0⟩

def add (s : Summary) (f : FileReport) : Summary :=
  ⟨s.errors + f.errors, s.warnings + f.warnings, s.files + 1⟩

def ofReport (r : Report) : Summary := r.foldl add empty

def problems (s : Summary) : Nat := s.errors + s.warnings

def fails (s : Summary) : Strictness → Bool
  | .errors => s.errors > 0
  | .warnings => s.problems > 0

def plus (s t : Summary) : Summary :=
  ⟨s.errors + t.errors, s.warnings + t.warnings, s.files + t.files⟩

theorem foldlAdd (r : Report) (s : Summary) : r.foldl add s = s.plus (ofReport r) := by
  unfold ofReport
  induction r generalizing s with
  | nil => rfl
  | cons f r ih =>
    rw [List.foldl_cons, List.foldl_cons, ih (s.add f), ih (empty.add f)]
    simp only [plus, add, empty, Nat.zero_add, Nat.add_assoc]

theorem ofReportAppend (a b : Report) :
    ofReport (a ++ b) = (ofReport a).plus (ofReport b) := by
  show (a ++ b).foldl add empty = _
  rw [List.foldl_append]
  exact foldlAdd b (ofReport a)

end Summary
end LintGate
