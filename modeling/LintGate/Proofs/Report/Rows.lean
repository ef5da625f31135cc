import LintGate.Proofs.Report.Characters
/-! What the reports with one line a finding need of the texts in them, and how the words and the
numbers of a row are read. -/
namespace LintGate

/-! ### Findings on one line -/

structure Finding.OneLine (f : Finding) : Prop where
  text : Text.OneLine f.text
  rule : ∀ rule ∈ f.rule, Text.OneLine rule

structure FileReport.OneLine (f : FileReport) : Prop where
  file : Text.OneLine f.file
  findings : ∀ x ∈ f.findings, x.OneLine

def Report.OneLine (r : Report) : Prop := ∀ f ∈ r, f.OneLine

instance (f : Finding) : Decidable f.OneLine :=
  decidable_of_iff (Text.OneLine f.text ∧ ∀ rule ∈ f.rule, Text.OneLine rule)
    ⟨fun ⟨text, rule⟩ => ⟨text, rule⟩, fun ⟨text, rule⟩ => ⟨text, rule⟩⟩

instance (f : FileReport) : Decidable f.OneLine :=
  decidable_of_iff (Text.OneLine f.file ∧ ∀ x ∈ f.findings, x.OneLine)
    ⟨fun ⟨file, findings⟩ => ⟨file, findings⟩, fun ⟨file, findings⟩ => ⟨file, findings⟩⟩

instance (r : Report) : Decidable r.OneLine := by unfold Report.OneLine; infer_instance

theorem FileReport.OneLine.lacks {f : FileReport} (oneLine : f.OneLine) (directory : String) :
    f.Lacks '\n' directory :=
  ⟨Path.shownLacks (by decide) directory oneLine.file, fun x found =>
    ⟨(oneLine.findings x found).text, (oneLine.findings x found).rule⟩⟩

namespace Report

/-! ### Words and numbers -/

def number? (cs : List Char) : Option Nat := Text.digits? (String.ofList cs)

theorem numberTold (n : Nat) : number? (Text.decimal n).toList = some n := by
  rw [number?, String.ofList_toList, Text.decimalRead]

/- The severity that goes by a name. -/
def severity? (name : Severity → String) (cs : List Char) : Option Severity :=
  [Severity.warning, .error].find? fun s => name s == String.ofList cs

theorem titleTold (s : Severity) : severity? Severity.title s.title.toList = some s := by
  cases s <;> decide

theorem labelTold (s : Severity) : severity? Severity.label s.label.toList = some s := by
  cases s <;> decide

end Report
end LintGate
