import LintGate.Path
import LintGate.Report.Rows
/-! The compact style: one line a finding, for reading. -/
namespace LintGate.Report.Compact

def row (directory file : String) (f : Finding) : String :=
  Path.shown directory file ++ ": line " ++ Text.decimal f.line ++ ", col " ++
    Text.decimal f.column ++ ", " ++ f.severity.title ++ " - " ++ f.text ++
    match f.rule with
    | some rule => " (" ++ rule ++ ")"
    | none => ""

def lines (directory : String) (r : Report) : List String :=
  rows (row directory) r ++ countLines r

def render (directory : String) (r : Report) : String := Text.unlines (lines directory r)

end LintGate.Report.Compact
