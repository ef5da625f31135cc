import LintGate.Report
import LintGate.Text.Layout
/-! What the styles with one line a finding have in common. -/
namespace LintGate

def Severity.title : Severity → String
  | .warning => "Warning"
  | .error => "Error"

namespace Report

def rows (row : String → Finding → String) (r : Report) : List String :=
  r.flatMap fun f => f.findings.map (row f.file)

/- The end of a report: how many problems there are, if there are any. -/
def countLines (r : Report) : List String :=
  let s := Summary.ofReport r
  if s.problems > 0 then ["", Text.plural s.problems "problem"] else []

theorem rowsAppend (row : String → Finding → String) (a b : Report) :
    rows row (a ++ b) = rows row a ++ rows row b := by
  simp [rows]

end Report
end LintGate
