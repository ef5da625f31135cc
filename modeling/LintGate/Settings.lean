import LintGate.Format
import LintGate.Report
import LintGate.Ruleset
/-! Settings: what one source of them says, and what is in force once all have spoken. -/
namespace LintGate

/- What a settings file says; each value may be absent. `command` is the engine's program with
its leading arguments. -/
structure Settings where
  format : Option String
  strict : Option Bool
  preset : Option String
  localConfig : Option Bool
  command : Option (List String)
  deriving DecidableEq, Repr

namespace Settings

def empty : Settings := ⟨none, none, none, none, none⟩

def keys : List String := ["format", "strict", "preset", "localConfig", "eslint"]

end Settings

structure Plan where
  format : Format
  strictness : Strictness
  preset : Preset
  localConfig : Bool
  command : List String
  deriving DecidableEq, Repr

def Plan.usual : Plan := ⟨.stylish, .errors, .strict, false, ["eslint"]⟩

end LintGate
