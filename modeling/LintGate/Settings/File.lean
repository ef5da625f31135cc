import LintGate.Host.Fault
import LintGate.Path
import LintGate.Settings.Toml
import LintGate.Settings.Yaml
import LintGate.Text.Utf8
/-! Settings files. The extension alone tells in which notation one is written. -/
namespace LintGate

inductive Notation
  | toml | yaml
  deriving DecidableEq, Repr

inductive SettingsError
  | unreadable (path : String) (fault : Fault)
  | malformed (path : String)
  | unsupported (path : String)
  | unknownFormat (value : String)
  | unknownPreset (value : String)
  | noProgram
  deriving DecidableEq, Repr

def SettingsError.message : SettingsError → String
  | unreadable path fault => "failed to read " ++ path ++ ": " ++ fault.message
  | malformed path => "failed to parse " ++ path ++ ": the text does not state settings"
  | unsupported path =>
      "unsupported settings file " ++ path ++ " (expected .toml, .yaml or .yml)"
  | unknownFormat value => "invalid value for format: " ++ Format.unknown value
  | unknownPreset value => "invalid value for preset: " ++ Preset.unknown value
  | noProgram => "invalid value for eslint: command must name a program"

namespace Settings

def notation? (path : String) : Option Notation :=
  match (Path.extension? path).map Text.asciiLower with
  | some "toml" => some .toml
  | some "yaml" | some "yml" => some .yaml
  | _ => none

def ofText? : Notation → String → Option Settings
  | .toml => ofToml?
  | .yaml => ofYaml?

def readText (read : String → Except Fault (List UInt8)) (path : String) :
    Except Fault String := do
  match Text.Utf8.decode? (← read path) with
  | some text => return text
  | none => throw .notUtf8

/- The file is not touched unless its extension is known. -/
def load (read : String → Except Fault (List UInt8)) (path : String) :
    Except SettingsError Settings :=
  match notation? path with
  | none => .error (.unsupported path)
  | some n =>
      match readText read path with
      | .error fault => .error (.unreadable path fault)
      | .ok text =>
          match ofText? n text with
          | none => .error (.malformed path)
          | some s => .ok s

end Settings
end LintGate
