import LintGate.Settings
import LintGate.Toml.Document
/-! Settings in TOML. Types are exact, and unknown keys may hold anything. -/
namespace LintGate.Settings
open LintGate.Toml (Item Members)

/- A member that, where it is there, has to be of the right type. -/
def optional {α : Type} (read : Item → Option α) (ms : Members) (key : String) :
    Option (Option α) :=
  match ms.lookup key with
  | none => some none
  | some v => (read v).map some

def text? : Item → Option String
  | .text s => some s
  | _ => none

def boolean? : Item → Option Bool
  | .boolean b => some b
  | _ => none

/- A command is a program alone or a list of words. -/
def command? : Item → Option (List String)
  | .text s => some [s]
  | .array items => items.mapM text?
  | _ => none

def ofMembers? (ms : Members) : Option Settings := do
  return {
    format := ← optional text? ms "format"
    strict := ← optional boolean? ms "strict"
    preset := ← optional text? ms "preset"
    localConfig := ← optional boolean? ms "localConfig"
    command := ← optional command? ms "eslint" }

def ofToml? (text : String) : Option Settings := (Toml.read? text).bind ofMembers?

end LintGate.Settings
