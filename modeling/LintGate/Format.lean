import LintGate.Report.Style
import LintGate.Text.Blank
/-! The formats a report can be asked for. Their names are read without regard to the case of
ASCII letters and to white space around them. -/
namespace LintGate

inductive Format
  | stylish | compact | unix | plain | json
  deriving DecidableEq, Repr

namespace Format

def name : Format → String
  | stylish => "stylish"
  | compact => "compact"
  | unix => "unix"
  | plain => "plain"
  | json => "json"

def all : List Format := [stylish, compact, unix, plain, json]

def ofName? (s : String) : Option Format := all.find? fun f => f.name == Text.folded s

def unknown (s : String) : String :=
  "unknown format '" ++ Text.folded s ++ "' (expected stylish|compact|unix|plain|json)"

/- The style that the checker is asked for. The other formats are written without it. -/
def style? : Format → Option Style
  | stylish => some .stylish
  | compact => some .compact
  | unix => some .unix
  | plain | json => none

theorem styleName {f : Format} {s : Style} (h : f.style? = some s) : s.name = f.name := by
  cases f <;> cases h <;> rfl

end Format
end LintGate
