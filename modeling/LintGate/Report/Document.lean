import LintGate.Json.Printer
import LintGate.Report
/-! The report as one JSON document, with the totals beside the results. -/
namespace LintGate
open LintGate.Json (Value)

namespace Report.Document

def finding (f : Finding) : Value :=
  .ofFields [
    ("line", .ofNat f.line),
    ("column", .ofNat f.column),
    ("severity", .text f.severity.label),
    ("text", .text f.text),
    ("rule", match f.rule with
      | some rule => .text rule
      | none => .null),
    ("fatal", .boolean f.fatal)]

def file (f : FileReport) : Value :=
  .ofFields [
    ("file", .text f.file),
    ("error_count", .ofNat f.errors),
    ("warning_count", .ofNat f.warnings),
    ("messages", .array (f.findings.map finding))]

def summary (s : Summary) : Value :=
  .ofFields [
    ("errors", .ofNat s.errors),
    ("warnings", .ofNat s.warnings),
    ("files", .ofNat s.files)]

def document (r : Report) (s : Summary) : Value :=
  .ofFields [("results", .array (r.map file)), ("summary", summary s)]

def render (r : Report) (s : Summary) : String := (document r s).pretty

end Report.Document
end LintGate
