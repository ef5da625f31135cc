import LintGate.Json.Printer
import LintGate.Ruleset
/-! A rule set as the configuration document that the engine reads. -/
namespace LintGate
open LintGate.Json (Value)

/- A rule is bound to its level alone, or to a list of the level and the options. -/
def Rule.value (r : Rule) : Value :=
  if r.options.isEmpty then .text r.level.name else .array (.text r.level.name :: r.options)

namespace Ruleset

def environmentsValue (s : Ruleset) : Value :=
  .ofFields (s.environments.map fun (name, on) => (name, .boolean on))

def globalsValue (s : Ruleset) : Value :=
  .ofFields (s.globals.map fun (name, m) => (name, .text m.name))

def pluginsField (s : Ruleset) : List (String × Value) :=
  if s.plugins.isEmpty then [] else [("plugins", .array (s.plugins.map Value.text))]

def document (s : Ruleset) : Value :=
  .ofFields (
    [("env", s.environmentsValue), ("globals", s.globalsValue)] ++ s.pluginsField ++
    [("rules", .ofFields (s.rules.map fun r => (r.name, r.value))),
     ("parserOptions", .ofFields [("ecmaVersion", .ofNat s.ecmaVersion)])])

def configText (s : Ruleset) : String := s.document.pretty

end Ruleset
end LintGate
