import LintGate.Proofs.Program.Calls
import LintGate.Proofs.Report.Native
/-! The verdict goes by the counts that the engine sends with each file, the severities shown by
its messages. The two are told apart here: what an accepted report shows, what it counts, and that
a finding fails the run as soon as the file it stands in has an error counted. -/
namespace LintGate

/-! ### What is shown -/
namespace Report.Native

variable {m : Message} {f : File} {g : FileReport} {files : List File} {r : Report} {s : String}

def Message.Blocks (m : Message) : Prop := m.fatal = true ∨ m.level = 2

def File.Blocks (f : File) : Prop := ∃ m ∈ f.messages, m.Blocks

/- A file as it is reported: the counts are handed on, and an error is shown for a message that
is fatal or of level 2. -/
structure Shown (f : File) (g : FileReport) : Prop where
  errors : g.errors = f.errors
  warnings : g.warnings = f.warnings
  blocks : (∃ x ∈ g.findings, x.severity = .error) ↔ f.Blocks

theorem severityBlocks {x : Severity} (meant : m.severity = .ok x) : x = .error ↔ m.Blocks := by
  unfold Message.severity at meant
  unfold Message.Blocks
  split at meant
  · cases meant
    simpa
  · rename_i other
    split at meant
    · cases meant
      simpa using other
    · cases meant

theorem findingBlocks {x : Finding} (meant : m.finding = .ok x) :
    x.severity = .error ↔ m.Blocks := by
  obtain ⟨level, severity, whole⟩ := bindOk meant
  cases whole
  exact severityBlocks severity

theorem blocksShown {ms : List Message} {xs : List Finding}
    (rows : List.Forall₂ (fun m x => Message.finding m = .ok x) ms xs) :
    (∃ x ∈ xs, x.severity = .error) ↔ ∃ m ∈ ms, m.Blocks := by
  induction rows with
  | nil => simp
  | cons meant _ ih => simp only [List.exists_mem_cons_iff, findingBlocks meant, ih]

theorem fileShown (meant : f.report = .ok g) : Shown f g := by
  obtain ⟨findings, meanings, whole⟩ := bindOk meant
  cases whole
  exact ⟨rfl, rfl, blocksShown (mapMOk meanings)⟩

theorem acceptedShown (accepted : read s = .ok r) :
    ∃ files, files? s = some files ∧ List.Forall₂ Shown files r := by
  obtain ⟨files, form, meant⟩ := readAccepted accepted
  exact ⟨files, form, (mapMOk meant).imp fun _ _ => fileShown⟩

theorem countsShown (rows : List.Forall₂ Shown files r) :
    (∃ g ∈ r, 0 < g.errors) ↔ ∃ f ∈ files, 0 < f.errors := by
  induction rows with
  | nil => simp
  | cons shown _ ih => simp only [List.exists_mem_cons_iff, shown.errors, ih]

/- The document shows an error in a file for which it also counts one. -/
def CountsError (s : String) : Prop :=
  ∃ files, files? s = some files ∧ ∃ f ∈ files, f.Blocks ∧ 0 < f.errors

theorem countedError (accepted : read s = .ok r) (counts : CountsError s) :
    ∃ g ∈ r, 0 < g.errors := by
  obtain ⟨files, form, f, member, _, counted⟩ := counts
  obtain ⟨others, again, shown⟩ := acceptedShown accepted
  cases form.symm.trans again
  exact (countsShown shown).mpr ⟨f, member, counted⟩

end Report.Native

/-! ### What is counted -/

def FileReport.counted (f : FileReport) : Strictness → Nat
  | .errors => f.errors
  | .warnings => f.errors + f.warnings

theorem Report.totalPositive {count : FileReport → Nat} {r : Report} :
    0 < r.total count ↔ ∃ f ∈ r, 0 < count f := by
  induction r with
  | nil => simp [total]
  | cons f r ih =>
    rw [total, List.exists_mem_cons_iff, ← ih]
    omega

theorem Summary.failsCounted (r : Report) (s : Strictness) :
    (ofReport r).fails s = true ↔ ∃ f ∈ r, 0 < f.counted s := by
  rw [ofReportTotals]
  cases s with
  | errors => simpa [fails, totals, FileReport.counted] using Report.totalPositive
  | warnings =>
    have either : (∃ f ∈ r, 0 < f.counted .warnings) ↔
        (∃ f ∈ r, 0 < f.errors) ∨ ∃ f ∈ r, 0 < f.warnings := by
      simp only [FileReport.counted, Nat.add_pos_iff_pos_or_pos, and_or_left, exists_or]
    rw [either, ← Report.totalPositive, ← Report.totalPositive]
    show decide (0 < r.total FileReport.errors + r.total FileReport.warnings) = true ↔ _
    rw [decide_eq_true_iff]
    omega

/-! ### What fails -/

namespace Program
open Selection (presentIn)

/- The run fails, and the last that it tells behind the report is that it failed. -/
structure Refused (h : Host) (p : Plan) (files : List String) (r : Report) : Prop where
  code : (perform h p files).code = 1
  told : ∃ text, (runPlan h p files).1.events =
    Run.warnings h files ++ [.report text, .verdict (Summary.ofReport r) p.strictness]
  failed : ∀ k : Console, k.write (.verdict (Summary.ofReport r) p.strictness) =
    k.error (Event.failedLine (Summary.ofReport r) p.strictness)

theorem failedRefused {h : Host} {p : Plan} {files : List String} {r : Report}
    (there : presentIn h.probe files ≠ [])
    (answers : (engine p).Answers h (presentIn h.probe files) r)
    (fails : (Summary.ofReport r).fails p.strictness = true) : Refused h p files r := by
  obtain ⟨text, ran⟩ := answeredRun there answers
  refine ⟨?_, ⟨text, by rw [ran]⟩, ?_⟩
  · show (runPlan h p files).1.status.code = 1
    rw [ran, Run.verdict, if_pos fails]
    rfl
  · intro k
    rw [Console.write, if_pos fails]

/- What an accepted report comes to: messages decide what is shown, and counts what fails. -/
structure CountsDecide (text : String) (r : Report) : Prop where
  shown : ∃ files, Report.Native.files? text = some files ∧
    List.Forall₂ Report.Native.Shown files r
  fails : ∀ s, (Summary.ofReport r).fails s = true ↔ ∃ f ∈ r, 0 < f.counted s
  blocked : Report.Native.CountsError text → ∀ s, (Summary.ofReport r).fails s = true
  refused : Report.Native.CountsError text → ∀ h p files, presentIn h.probe files ≠ [] →
    (engine p).Answers h (presentIn h.probe files) r → Refused h p files r

theorem countedErrorFails {r : Report} (counted : ∃ f ∈ r, 0 < f.errors) (s : Strictness) :
    (Summary.ofReport r).fails s = true := by
  obtain ⟨f, member, positive⟩ := counted
  rw [Summary.failsCounted]
  refine ⟨f, member, ?_⟩
  cases s with
  | errors => exact positive
  | warnings => exact Nat.add_pos_left positive f.warnings

def fatalText (counts : String) : String :=
  "[\x7b\"filePath\":\"a.js\"," ++ counts ++ "\"messages\":[" ++
    "\x7b\"severity\":1,\"fatal\":true,\"message\":\"no end\"\x7d]\x7d]"

def fatalFiles (errors : Nat) : List Report.Native.File :=
  [⟨"a.js", [⟨none, 1, "no end", 0, 0, true⟩], errors, 0⟩]

def fatalReport (errors : Nat) : Report :=
  [⟨"a.js", errors, 0, [⟨0, 0, .error, "no end", none, true⟩]⟩]

end Program
end LintGate
