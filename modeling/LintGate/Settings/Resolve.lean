import LintGate.Settings.File
import LintGate.Text.Blank
/-! What is in force for a run: an option comes before the settings file, and that before the
usual value. -/
namespace LintGate

/- The choices of whoever starts a run; each may be left open. `engine` names a program without
arguments. -/
structure Options where
  config : Option String
  format : Option String
  strict : Option Bool
  preset : Option String
  localConfig : Option Bool
  engine : Option String
  deriving DecidableEq, Repr

def Options.empty : Options := ⟨none, none, none, none, none, none⟩

namespace Settings

def chooseFormat (o : Options) (s : Settings) : Except SettingsError Format :=
  match o.format <|> s.format with
  | none => .ok Plan.usual.format
  | some value =>
      match Format.ofName? value with
      | some f => .ok f
      | none => .error (.unknownFormat value)

def choosePreset (o : Options) (s : Settings) : Except SettingsError Preset :=
  match o.preset <|> s.preset with
  | none => .ok Plan.usual.preset
  | some value =>
      match Preset.ofName? value with
      | some p => .ok p
      | none => .error (.unknownPreset value)

def chooseFlag (chosen stated : Option Bool) : Bool := (chosen <|> stated).getD false

def commandInForce (o : Options) (s : Settings) : List String :=
  match o.engine with
  | some program => [program]
  | none => s.command.getD Plan.usual.command

/- A command has to have a first word, and that has to be more than white space. -/
def chooseCommand (o : Options) (s : Settings) : Except SettingsError (List String) :=
  if (commandInForce o s).head?.all Text.isBlankText then .error .noProgram else .ok (commandInForce o s)

def plan (o : Options) (s : Settings) : Except SettingsError Plan := do
  let format ← chooseFormat o s
  let preset ← choosePreset o s
  let command ← chooseCommand o s
  return {
    format
    strictness := if chooseFlag o.strict s.strict then .warnings else .errors
    preset
    localConfig := chooseFlag o.localConfig s.localConfig
    command }

end Settings

def Options.settings (read : String → Except Fault (List UInt8)) (o : Options) :
    Except SettingsError Settings :=
  match o.config with
  | some path => Settings.load read path
  | none => .ok .empty

def Options.resolve (read : String → Except Fault (List UInt8)) (o : Options) :
    Except SettingsError Plan := do
  Settings.plan o (← o.settings read)

end LintGate
