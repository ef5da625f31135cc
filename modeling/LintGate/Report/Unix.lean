import LintGate.Path
import LintGate.Report.Rows
/-! The unix style: one line a finding, for tools that jump to a position. -/
namespace LintGate.Report.Unix

/- The bracketed end of a row. An empty rule leaves the slash, an absent one does not. -/
def tag (f : Finding) : String :=
  match f.rule with
  | some rule => "[" ++ f.severity.title ++ "/" ++ rule ++ "]"
  | none => "[" ++ f.severity.title ++ "]"

def row (directory file : String) (f : Finding) : String :=
  Path.shown directory file ++ ":" ++ Text.decimal f.line ++ ":" ++ Text.decimal f.column ++
    ": " ++ f.text ++ " " ++ tag f

def lines (directory : String) (r : Report) : List String :=
  rows (row directory) r ++ countLines r

def render (directory : String) (r : Report) : String := Text.unlines (lines directory r)

end LintGate.Report.Unix
