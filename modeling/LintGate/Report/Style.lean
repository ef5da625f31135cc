import LintGate.Report.Compact
import LintGate.Report.Stylish
import LintGate.Report.Unix
/-! The styles that a checker offers, which are known to others by their names. -/
namespace LintGate

inductive Style
  | stylish | compact | unix
  deriving DecidableEq, Repr

namespace Style

def name : Style → String
  | stylish => "stylish"
  | compact => "compact"
  | unix => "unix"

def all : List Style := [stylish, compact, unix]

/- Names are exact: no other spelling of them counts. -/
def ofName? (s : String) : Option Style := all.find? fun style => style.name == s

def render (directory : String) (colors : Bool) (r : Report) : Style → String
  | stylish => Report.Stylish.render directory colors r
  | compact => Report.Compact.render directory r
  | unix => Report.Unix.render directory r

theorem ofNameName (s : Style) : ofName? s.name = some s := by
  cases s <;> decide

end Style
end LintGate
