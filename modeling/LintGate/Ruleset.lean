import LintGate.Json.Value
import LintGate.Text.Blank
/-! The fixed rule sets: what every checked file is held to. A rule set is chosen by a preset
and never changed afterwards. -/
namespace LintGate

inductive Preset
  | strict | minimal
  deriving DecidableEq, Repr

namespace Preset

def name : Preset → String
  | strict => "strict"
  | minimal => "minimal"

def all : List Preset := [strict, minimal]

def ofName? (s : String) : Option Preset := all.find? fun p => p.name == Text.folded s

def unknown (s : String) : String :=
  "unknown preset '" ++ Text.folded s ++ "' (expected strict|minimal)"

end Preset

inductive Level
  | off | warn | error
  deriving DecidableEq, Repr

def Level.name : Level → String
  | off => "off"
  | warn => "warn"
  | error => "error"

inductive Mutability
  | readonly | writable
  deriving DecidableEq, Repr

def Mutability.name : Mutability → String
  | readonly => "readonly"
  | writable => "writable"

structure Rule where
  name : String
  level : Level
  options : List Json.Value
  deriving Repr

/- `plugins` are the rule packs that the engine has to find, and `localConfig` tells whether it
may also apply configuration that it finds in the project. -/
structure Ruleset where
  environments : List (String × Bool)
  globals : List (String × Mutability)
  plugins : List String
  rules : List Rule
  ecmaVersion : Nat
  localConfig : Bool
  deriving Repr

namespace Ruleset
open LintGate.Json (Value)

def essentialRules : List Rule :=
  [⟨"no-undef", .error, []⟩,
   ⟨"no-unused-vars", .error, [.ofFields [("vars", .text "all"), ("args", .text "none")]]⟩,
   ⟨"semi", .error, [.text "always"]⟩]

def strictEquality : Rule := ⟨"eqeqeq", .error, [.text "always"]⟩

def styleRules : List Rule :=
  [⟨"quotes", .error, [.text "double"]⟩,
   strictEquality,
   ⟨"curly", .error, [.text "all"]⟩,
   ⟨"no-trailing-spaces", .error, []⟩,
   ⟨"indent", .error, [.ofNat 2]⟩,
   ⟨"max-len", .error, [.ofFields [("code", .ofNat 120)]]⟩,
   ⟨"jquery/no-global-ajax", .warn, []⟩,
   ⟨"jquery/no-animate-toggle", .warn, []⟩,
   ⟨"jquery/no-sizzle", .error, []⟩]

/- ES5 in a browser with jQuery. Only the strict rules need a rule pack. -/
def ofPreset (p : Preset) (localConfig : Bool) : Ruleset where
  environments := [("browser", true), ("jquery", true)]
  globals := ["$", "console", "document", "jQuery", "window"].map fun g => (g, .readonly)
  plugins := match p with
    | .strict => ["jquery"]
    | .minimal => []
  rules := essentialRules ++ match p with
    | .strict => styleRules
    | .minimal => [strictEquality]
  ecmaVersion := 5
  localConfig := localConfig

def rule? (s : Ruleset) (name : String) : Option Rule := s.rules.find? fun r => r.name == name

/- No rule set lets the engine change the files it checks. -/
def fixes (_ : Ruleset) : Bool := false

end Ruleset
end LintGate
