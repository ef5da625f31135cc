import LintGate.Proofs.Selection
import LintGate.Run
/-! The five ways in which a run can end, with all that is known of the host and of the checker
in each of them. What holds of every run is read off from these. -/
namespace LintGate

/-! ### Totals -/

def Report.total (count : FileReport → Nat) : Report → Nat
  | [] => 0
  | f :: r => count f + total count r

def Summary.totals (r : Report) : Summary :=
  ⟨r.total FileReport.errors, r.total FileReport.warnings, r.length⟩

theorem Summary.ofReportTotals (r : Report) : ofReport r = totals r := by
  induction r with
  | nil => rfl
  | cons f r ih =>
    show r.foldl add (empty.add f) = _
    rw [foldlAdd, ih]
    simp only [plus, add, empty, totals, Report.total, List.length_cons, Nat.zero_add]
    rw [Nat.add_comm 1]

namespace Run
open Selection (presentIn missingIn inaccessibleIn)

def missingEvents (h : Host) (files : List String) : List Event :=
  (missingIn h.probe files).map Event.missing

def inaccessibleEvents (h : Host) (files : List String) : List Event :=
  (inaccessibleIn h.probe files).map fun (path, fault) => Event.inaccessible path fault.message

def warnings (h : Host) (files : List String) : List Event :=
  missingEvents h files ++ inaccessibleEvents h files

inductive Ends (h : Host) (c : Checker) (p : Plan) : List String → Outcome → Prop where
  | noFiles : Ends h c p [] ⟨.failure, [.noFiles], []⟩
  | nothing {files} (named : files ≠ []) (absent : presentIn h.probe files = []) :
      Ends h c p files ⟨.success, warnings h files ++ [.nothingToCheck], []⟩
  | unchecked {files e} (there : presentIn h.probe files ≠ [])
      (refused : c.check (presentIn h.probe files) = .error e) :
      Ends h c p files
        ⟨.failure, warnings h files ++ [.checkFailed e], [presentIn h.probe files]⟩
  | unrendered {files r e} (there : presentIn h.probe files ≠ [])
      (checked : c.check (presentIn h.probe files) = .ok r)
      (refused : Report.render h c p.format r (Summary.ofReport r) = .error e) :
      Ends h c p files
        ⟨.failure, warnings h files ++ [.checkFailed e], [presentIn h.probe files]⟩
  | judged {files r text} (there : presentIn h.probe files ≠ [])
      (checked : c.check (presentIn h.probe files) = .ok r)
      (rendered : Report.render h c p.format r (Summary.ofReport r) = .ok text) :
      Ends h c p files
        ⟨verdict p (Summary.ofReport r),
          warnings h files ++ [.report text, .verdict (Summary.ofReport r) p.strictness],
          [presentIn h.probe files]⟩

variable {h : Host} {c : Checker} {p : Plan} {files : List String}

/-! ### Every run -/

theorem skippedParts (h : Host) (files : List String) :
    skipped (Selection.of h.probe files) = warnings h files := by
  rw [Selection.ofParts]
  rfl

theorem runNothing (named : files ≠ []) (absent : presentIn h.probe files = []) :
    run h c p files = ⟨.success, warnings h files ++ [.nothingToCheck], []⟩ := by
  have filled : files.isEmpty = false := by simp [named]
  simp only [run, filled, skippedParts]
  simp [Selection.ofParts, absent]

theorem runChecked (there : presentIn h.probe files ≠ []) :
    run h c p files =
      ⟨(check h c p (presentIn h.probe files)).1,
        warnings h files ++ (check h c p (presentIn h.probe files)).2,
        [presentIn h.probe files]⟩ := by
  have named : files.isEmpty = false := by
    cases files with
    | nil => contradiction
    | cons => rfl
  simp only [run, named, skippedParts]
  simp [Selection.ofParts, there]

theorem runEnds (h : Host) (c : Checker) (p : Plan) (files : List String) :
    Ends h c p files (run h c p files) := by
  by_cases named : files = []
  · subst files
    exact .noFiles
  by_cases absent : presentIn h.probe files = []
  · rw [runNothing named absent]
    exact .nothing named absent
  · rw [runChecked absent]
    unfold check
    cases checked : c.check (presentIn h.probe files) with
    | error e => exact .unchecked absent checked
    | ok r =>
      dsimp only [conclude]
      cases rendered : Report.render h c p.format r (Summary.ofReport r) with
      | error e => exact .unrendered absent checked rendered
      | ok text => exact .judged absent checked rendered

theorem verdictPasses {r : Report} :
    verdict p (Summary.ofReport r) = .success ↔
      r.total FileReport.errors = 0 ∧
        (p.strictness = .warnings → r.total FileReport.warnings = 0) := by
  rw [Summary.ofReportTotals]
  unfold verdict Summary.totals
  cases p.strictness with
  | errors => simp [Summary.fails]
  | warnings => simp [Summary.fails, Summary.problems]

/- A run succeeds if there is nothing to check, or if the report could be printed and has nothing
in it that counts. -/
theorem endsSuccess {o : Outcome} (ends : Ends h c p files o) :
    o.status = .success ↔
      files ≠ [] ∧ (presentIn h.probe files = [] ∨ ∃ r text,
        c.check (presentIn h.probe files) = .ok r ∧
        Report.render h c p.format r (Summary.ofReport r) = .ok text ∧
        verdict p (Summary.ofReport r) = .success) := by
  have named : presentIn h.probe files ≠ [] → files ≠ [] := by
    intro there empty
    subst files
    exact there rfl
  cases ends with
  | noFiles => simp
  | nothing named absent => simp [named, absent]
  | unchecked there refused => simp [there, refused]
  | unrendered there checked refused => simp [there, checked, refused]
  | judged there checked rendered => simp [there, named there, checked, rendered]

end Run
end LintGate
