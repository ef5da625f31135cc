import LintGate.CommandLine
import LintGate.Run
/-! The whole program: from its words and the system around it to an exit code and what it
writes. -/
namespace LintGate.Program

def versionText : String := "jqlint 0.1.0\n"

def helpText : String :=
  Text.unlines [
    "Check JavaScript files with ESLint, using a fixed ES5, browser and jQuery rule set",
    "",
    "Usage: jqlint [OPTIONS] [FILES]...",
    "",
    "Options:",
    "      --format <FORMAT>  Report format: stylish|compact|unix|plain|json",
    "      --strict           Treat warnings as failures",
    "      --preset <PRESET>  Rule set: strict|minimal",
    "      --local-config     Let ESLint apply the project's own configuration too",
    "      --eslint <ESLINT>  ESLint executable",
    "      --config <CONFIG>  Settings file (.toml, .yaml or .yml)",
    "  -v, --verbose          Print debug diagnostics",
    "  -h, --help             Print help",
    "  -V, --version          Print version"]

def usageText : Misuse → String
  | .invalidValue => "error: an option has no value\n"
  | .unknownArgument => "error: an argument is not known\n"
  | .argumentConflict => "error: an option is given twice\n"
  | .tooManyValues => "error: a flag takes no value\n"

/- What the program has done when it ends. `stop` tells if it ended before a run. -/
structure Ended where
  code : UInt8
  stdout : String
  stderr : String
  stop : Option Stop
  calls : List Call
  scratch : Scratch
  deriving DecidableEq, Repr

def stopped (h : Host) (s : Stop) : Ended :=
  match s with
  | .help => ⟨0, helpText, "", some s, [], h.scratch⟩
  | .version => ⟨0, versionText, "", some s, [], h.scratch⟩
  | .misuse m => ⟨2, "", usageText m, some s, [], h.scratch⟩

def unsettled (h : Host) (e : SettingsError) : Ended :=
  ⟨1, "", Text.line (Sign.error.mark h.colors e.message), none, [], h.scratch⟩

/- What asking the engine once for each of the path lists comes to. -/
def engineCalls (e : Engine) (h : Host) (asked : List (List String)) : List Call × Scratch :=
  asked.foldl
    (fun (calls, scratch) paths =>
      let c := e.check { h with scratch } paths
      (calls ++ c.calls, c.scratch))
    ([], h.scratch)

def engine (p : Plan) : Engine := ⟨p.command, .ofPreset p.preset p.localConfig⟩

def runPlan (h : Host) (p : Plan) (files : List String) : Outcome × List Call × Scratch :=
  let e := engine p
  let o := LintGate.run h (e.checker h) p files
  (o, engineCalls e h o.asked)

def perform (h : Host) (p : Plan) (files : List String) : Ended :=
  let (o, calls, scratch) := runPlan h p files
  let c : Console := ⟨p.format, h.colors⟩
  ⟨o.status.code, c.output .out o.events, c.output .err o.events, none, calls, scratch⟩

def run (h : Host) (argv : List String) : Ended :=
  match CommandLine.read argv with
  | .error s => stopped h s
  | .ok i =>
      match i.options.resolve h.read with
      | .error e => unsettled h e
      | .ok p => perform h p i.files

end LintGate.Program
