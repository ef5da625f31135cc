import LintGate.Report.Plain
import LintGate.Text.Blank
/-! The stylish report: for each file with findings an empty line, its path and a table of its
findings, and at the end a count of the problems, unless there are none. -/
namespace LintGate.Report.Stylish
open LintGate.Text (Attribute)

/- A period at the end is dropped, unless a space is before it or nothing at all. -/
def sentence (text : String) : String :=
  match text.toList.reverse with
  | '.' :: c :: rest => if c = ' ' then text else String.ofList (c :: rest).reverse
  | _ => text

structure Columns where
  line : Nat
  column : Nat
  label : Nat
  text : Nat
  deriving DecidableEq, Repr

def Columns.of (fs : List Finding) : Columns where
  line := Text.widest (fs.map fun f => Text.decimal f.line)
  column := Text.widest (fs.map fun f => Text.decimal f.column)
  label := Text.widest (fs.map fun f => f.severity.label)
  text := Text.widest (fs.map fun f => sentence f.text)

namespace Columns

def position (w : Columns) (f : Finding) : String :=
  Text.padStart w.line (Text.decimal f.line) ++ ":" ++
    Text.padEnd w.column (Text.decimal f.column)

/- A missing rule leaves its cell empty, though in colours not quite. -/
def cells (w : Columns) (colors : Bool) (f : Finding) : String :=
  "  " ++ Text.ink colors [.dimmed] (w.position f) ++
    "  " ++ Text.ink colors [f.severity.color] (Text.padEnd w.label f.severity.label) ++
    "  " ++ Text.padEnd w.text (sentence f.text) ++
    "  " ++ Text.ink colors [.dimmed] (f.rule.getD "")

def row (w : Columns) (colors : Bool) (f : Finding) : String := Text.trimEnd (w.cells colors f)

end Columns

def header (directory : String) (colors : Bool) (file : String) : String :=
  Text.ink colors [.underlined] (Path.shown directory file)

def block (directory : String) (colors : Bool) (f : FileReport) : List String :=
  "" :: header directory colors f.file :: f.findings.map ((Columns.of f.findings).row colors)

def count (s : Summary) : String :=
  "✖ " ++ Text.plural s.problems "problem" ++ " (" ++ Text.plural s.errors "error" ++ ", " ++
    Text.plural s.warnings "warning" ++ ")"

/- The count is red if there are errors and yellow if there are only warnings. -/
def countLines (colors : Bool) (r : Report) : List String :=
  let s := Summary.ofReport r
  let color : Attribute := if s.errors > 0 then .red else .yellow
  if s.problems > 0 then ["", Text.ink colors [.bold, color] (count s)] else []

def lines (directory : String) (colors : Bool) (r : Report) : List String :=
  (r.filter FileReport.isListed).flatMap (block directory colors) ++ countLines colors r

def render (directory : String) (colors : Bool) (r : Report) : String :=
  Text.unlines (lines directory colors r)

end LintGate.Report.Stylish
