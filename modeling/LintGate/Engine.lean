import LintGate.Host
import LintGate.Report.Native
import LintGate.Report.Style
import LintGate.Ruleset.Document
import LintGate.Text.Utf8
/-! The lint engine: a program that is started once for all files of a run. It finds the rule
set in a temporary file and prints its report in its own JSON form. -/
namespace LintGate

inductive EngineError
  | notStarted (program : String) (fault : Fault)
  | configUnwritable (fault : Fault)
  | crashed (code : Option Int) (message : String)
  | unreadable (defect : Report.Native.Defect)
  | unknownStyle (name : String)
  deriving DecidableEq, Repr

namespace EngineError

def exitLabel : Option Int → String
  | some code => "code " ++ Text.signedDecimal code
  | none => "a signal"

def message : EngineError → String
  | notStarted program fault => "failed to start '" ++ program ++ "': " ++ fault.message
  | configUnwritable fault => "could not write the lint configuration: " ++ fault.message
  | crashed code message => "ESLint exited with " ++ exitLabel code ++ ": " ++ message
  | unreadable defect => "unreadable ESLint output: " ++ defect.message
  | unknownStyle name => "unknown output format '" ++ name ++ "'"

end EngineError

/- What a run asks of whoever does the checking: a report on all the paths at once, and the
text of a report in one of the styles that it offers. -/
structure Checker where
  check : List String → Except EngineError Report
  style : Report → String → Except EngineError String

structure Engine where
  command : List String
  ruleset : Ruleset
  deriving Repr

namespace Engine

/-! ### The call -/

/- The arguments behind the command: after `--` come the paths alone. Fixing is not among
them. -/
def arguments (rules : Ruleset) (config : String) (pluginRoot : Option String)
    (paths : List String) : List String :=
  ["--config", config] ++
    (match pluginRoot with
      | some root => ["--resolve-plugins-relative-to", root]
      | none => []) ++
    ["--format", "json"] ++ (if rules.localConfig then [] else ["--no-eslintrc"]) ++
    "--" :: paths

/- The engine reads the configuration in its old form only when it is told to. -/
def environment : List (String × String) := [("ESLINT_USE_FLAT_CONFIG", "false")]

def call (rules : Ruleset) (h : Host) (program : String) (leading paths : List String) : Call :=
  let name := h.scratch.freshName
  { program
    arguments :=
      leading ++ arguments rules (h.scratch.path name) (some h.directory) paths
    environment
    files := (h.scratch.add name rules.configText).visible }

/-! ### The answer -/

def trimmed (octets : List UInt8) : String := Text.trim (Text.Utf8.decodeLossy octets)

/- What a program that failed had to say: its complaint, or else its output. -/
def complaint (r : Reply) : String :=
  if trimmed r.stderr = "" then trimmed r.stdout else trimmed r.stderr

/- The codes 0 and 1 both come with a report. -/
def answer (r : Reply) : Except EngineError Report :=
  match r.ending with
  | .exited code =>
      if code ≤ 1 then (Report.Native.read (Text.Utf8.decodeLossy r.stdout)).mapError .unreadable
      else .error (.crashed (some code.toNat) (complaint r))
  | .signalled => .error (.crashed none (complaint r))

/-! ### Checking -/

structure Checked where
  result : Except EngineError Report
  calls : List Call
  scratch : Scratch

/- Whatever way the call ends, the temporary file goes with it. -/
def check (e : Engine) (h : Host) (paths : List String) : Checked :=
  match e.command with
  | [] => ⟨.error (.notStarted "" .noCommand), [], h.scratch⟩
  | program :: leading =>
      let name := h.scratch.freshName
      match h.store name e.ruleset.configText with
      | (some fault, during) => ⟨.error (.configUnwritable fault), [], during.remove name⟩
      | (none, during) =>
          let c := call e.ruleset h program leading paths
          match h.launch c with
          | .error fault => ⟨.error (.notStarted program fault), [], during.remove name⟩
          | .ok reply => ⟨answer reply, [c], during.remove name⟩

def style (h : Host) (r : Report) (name : String) : Except EngineError String :=
  match Style.ofName? name with
  | some s => .ok (s.render h.directory h.colors r)
  | none => .error (.unknownStyle name)

def checker (e : Engine) (h : Host) : Checker where
  check paths := (e.check h paths).result
  style := style h

end Engine
end LintGate
