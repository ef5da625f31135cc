import LintGate.Path
import LintGate.Report
import LintGate.Text.Layout
import LintGate.Text.Sgr
/-! The plain report: for each file with findings its path and then one row a finding. -/
namespace LintGate
open LintGate.Text (Attribute)

def Severity.color : Severity → Attribute
  | .warning => .yellow
  | .error => .red

def FileReport.isListed (f : FileReport) : Bool := !f.findings.isEmpty

namespace Report.Plain

def label (colors : Bool) (s : Severity) : String :=
  Text.ink colors [.bold, s.color] ("[" ++ s.label ++ "]")

def row (colors : Bool) (f : Finding) : String :=
  "  line " ++ Text.decimal f.line ++ ", column " ++ Text.decimal f.column ++ " " ++
    label colors f.severity ++ " " ++ f.text ++
    match f.rule with
    | some rule => " (" ++ rule ++ ")"
    | none => ""

def header (directory : String) (colors : Bool) (file : String) : String :=
  Text.ink colors [.bold] (Path.shown directory file)

def block (directory : String) (colors : Bool) (f : FileReport) : List String :=
  header directory colors f.file :: f.findings.map (row colors)

def lines (directory : String) (colors : Bool) (r : Report) : List String :=
  (r.filter FileReport.isListed).flatMap (block directory colors)

def render (directory : String) (colors : Bool) (r : Report) : String :=
  Text.unlines (lines directory colors r)

end Report.Plain
end LintGate
