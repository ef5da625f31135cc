import LintGate.Engine
import LintGate.Format
/-! What a run tells its reader, and on which of the two sinks. -/
namespace LintGate

inductive Sink
  | out | err
  deriving DecidableEq, Repr

inductive Event
  | noFiles
  | missing (path : String)
  | inaccessible (path reason : String)
  | nothingToCheck
  | checkFailed (e : EngineError)
  | report (text : String)
  | verdict (s : Summary) (strictness : Strictness)
  deriving DecidableEq, Repr

/-! ### Wording -/
namespace Event

def noFilesLine : String := "no input files; pass the JS file paths to check"

def missingLine (path : String) : String := "file not found, skipping: " ++ path

def inaccessibleLine (path reason : String) : String :=
  "cannot access " ++ path ++ " (" ++ reason ++ "), skipping"

def nothingToCheckLine : String := "No valid JS files; nothing to check"

def checkFailedLine (e : EngineError) : String := "ESLint execution failed: " ++ e.message

/- Warnings are counted only where they count. -/
def failedLine (s : Summary) : Strictness → String
  | .errors => "ESLint failed: " ++ Text.plural s.errors "error"
  | .warnings =>
      "ESLint failed: " ++ Text.plural s.errors "error" ++ ", " ++
        Text.plural s.warnings "warning"

def passedLine (s : Summary) : String :=
  "ESLint passed (" ++ Text.plural s.files "file" ++ " checked)"

end Event

/-! ### Signs in front of a line -/

inductive Sign
  | error | warning | info | passed
  deriving DecidableEq, Repr

namespace Sign

def text : Sign → String
  | error => "✖ error:"
  | warning => "⚠ warning:"
  | info => "ℹ info:"
  | passed => "✔"

def color : Sign → Text.Attribute
  | error => .red
  | warning => .yellow
  | info => .blue
  | passed => .green

def mark (colors : Bool) (s : Sign) (line : String) : String :=
  Text.ink colors [.bold, s.color] s.text ++ " " ++ line

end Sign

/-! ### Sinks -/

structure Console where
  format : Format
  colors : Bool
  deriving DecidableEq, Repr

namespace Console

/- A report in JSON has the output to itself. -/
def noticeSink (c : Console) : Sink := if c.format = .json then .err else .out

def notice (c : Console) (s : Sign) (line : String) : Option (Sink × String) :=
  some (c.noticeSink, Text.line (s.mark c.colors line))

def error (c : Console) (line : String) : Option (Sink × String) :=
  some (.err, Text.line (Sign.error.mark c.colors line))

/- A report loses the white space at its end; one that is blank is not written. -/
def report (text : String) : Option (Sink × String) :=
  if Text.trimEnd text = "" then none else some (.out, Text.line (Text.trimEnd text))

def write (c : Console) : Event → Option (Sink × String)
  | .noFiles => c.error Event.noFilesLine
  | .missing path => c.notice .warning (Event.missingLine path)
  | .inaccessible path reason => c.notice .warning (Event.inaccessibleLine path reason)
  | .nothingToCheck => c.notice .info Event.nothingToCheckLine
  | .checkFailed e => c.error (Event.checkFailedLine e)
  | .report text => report text
  | .verdict s strictness =>
      if s.fails strictness then c.error (Event.failedLine s strictness)
      else c.notice .passed (Event.passedLine s)

def output (c : Console) (sink : Sink) (events : List Event) : String :=
  String.join ((events.filterMap c.write).filterMap fun w =>
    if w.1 = sink then some w.2 else none)

end Console
end LintGate
