import LintGate.Proofs.Settings.Loading
import LintGate.Proofs.Settings.Precedence
import LintGate.Proofs.Toml.Reading
import LintGate.Proofs.Yaml.Reading
/-! A declaration comes to the same answer from a file in either notation, and from the options
where these can say it. -/
namespace LintGate

namespace Settings

variable {read : String → Except Fault (List UInt8)} {n : Notation} {d : Declaration}
  {path text : String}

/-! ### Files -/

structure Saved (read : String → Except Fault (List UInt8)) (n : Notation) (d : Declaration)
    (path : String) : Prop where
  extension : ∃ e, Path.extension? path = some e ∧ Text.asciiLower e ∈ n.extensions
  content : ∃ text, n.Declares text d ∧ read path = .ok (Text.Utf8.encode text)

theorem declaredRead (h : n.Declares text d) : ofText? n text = some d.settings := by
  cases n with
  | toml => exact tomlRead h
  | yaml => exact yamlRead h

theorem savedLoads (saved : Saved read n d path) : load read path = .ok d.settings := by
  obtain ⟨text, declares, stored⟩ := saved.content
  exact loadOk.mpr ⟨n, text, saved.extension, stored, declaredRead declares⟩

/-! ### Answers -/

/- One of the values is not known, whereas the file itself could be read. -/
def IsInvalidValue : SettingsError → Prop
  | .unknownFormat _ | .unknownPreset _ | .noProgram => True
  | .unreadable _ _ | .malformed _ | .unsupported _ => False

variable {o : Options} {s : Settings} {e : SettingsError}

theorem planRefused (refused : plan o s = .error e) : IsInvalidValue e := by
  rcases bindError refused with format | ⟨_, _, refused⟩
  · obtain ⟨value, _, _, rfl⟩ := formatRefusal.mp format
    trivial
  rcases bindError refused with preset | ⟨_, _, refused⟩
  · obtain ⟨value, _, _, rfl⟩ := presetRefusal.mp preset
    trivial
  rcases bindError refused with command | ⟨_, _, refused⟩
  · obtain ⟨_, rfl⟩ := commandRefusal.mp command
    trivial
  · cases refused

theorem savedResolve (saved : Saved read n d path) (o : Options) :
    { o with config := some path }.resolve read = plan o d.settings := by
  have loaded : { o with config := some path }.settings read = .ok d.settings := savedLoads saved
  rw [Options.resolve, loaded]
  rfl

/-! ### Options -/

/- Options without a settings file that say what the declaration does. They have a name for the
program of a command and none for its other words. -/
structure Declaration.Chosen (d : Declaration) (o : Options) : Prop where
  noFile : o.config = none
  format : o.format = d.format
  strict : o.strict = d.strict
  preset : o.preset = d.preset
  localConfig : o.localConfig = d.localConfig
  command : d.command = o.engine.map .program

theorem chosenResolve (chosen : d.Chosen o) : o.resolve read = plan .empty d.settings := by
  obtain ⟨noFile, format, strict, preset, localConfig, command⟩ := chosen
  have resolved : o.resolve read = plan o empty := by
    rw [Options.resolve, Options.settings, noFile]
    rfl
  rw [resolved]
  refine planSame ?_ ?_ ?_ ?_ ?_
  · simp [format, Options.empty, empty, Declaration.settings]
  · simp [strict, Options.empty, empty, Declaration.settings]
  · simp [preset, Options.empty, empty, Declaration.settings]
  · simp [localConfig, Options.empty, empty, Declaration.settings]
  · cases engine : o.engine with
    | none => simp [commandInForce, Options.empty, empty, Declaration.settings, command, engine]
    | some program =>
      simp [commandInForce, Options.empty, Declaration.settings, command, engine, Command.argv]

/-! ### All sources -/

/- One declaration in two files, in options, and with its program as a list of one word. -/
structure SourcesAgree (read : String → Except Fault (List UInt8)) (d : Declaration)
    (toml yaml : String) : Prop where
  files : ∀ o : Options, ∃ answer, (∀ e, answer = .error e → IsInvalidValue e) ∧
    { o with config := some toml }.resolve read = answer ∧
    { o with config := some yaml }.resolve read = answer
  options : ∀ o, d.Chosen o →
    o.resolve read = { Options.empty with config := some toml }.resolve read ∧
    o.resolve read = { Options.empty with config := some yaml }.resolve read
  listed : ∀ program n path, d.command = some (.program program) →
    Saved read n { d with command := some (.words [program]) } path →
    ∀ o : Options, { o with config := some path }.resolve read =
      { o with config := some toml }.resolve read

theorem sourcesAgree {toml yaml : String} (inToml : Saved read .toml d toml)
    (inYaml : Saved read .yaml d yaml) : SourcesAgree read d toml yaml where
  files o := ⟨plan o d.settings, fun _ => planRefused, savedResolve inToml o,
    savedResolve inYaml o⟩
  options o chosen := by
    rw [savedResolve inToml, savedResolve inYaml]
    exact ⟨chosenResolve chosen, chosenResolve chosen⟩
  listed program n path command saved o := by
    rw [savedResolve saved, savedResolve inToml]
    have same : { d with command := some (.words [program]) }.settings = d.settings := by
      simp [Declaration.settings, command, Command.argv]
    rw [same]

/-! Two files with different orders of the lines and different escapes. -/

def sample : Declaration := ⟨some "json", some true, none, none, some (.program "\u00e9\x22")⟩

def sampleToml : String :=
  "strict = true\nformat = \x22json\x22\neslint = \x22\\u00E9\\\x22\x22\n"

def sampleYaml : String :=
  "eslint: \x22\\xe9\\\x22\x22\nformat:  \x22json\x22\nstrict: true\n"

def sampleFiles (path : String) : Except Fault (List UInt8) :=
  if path = "lint.TOML" then .ok (Text.Utf8.encode sampleToml)
  else if path = "conf/lint.Yml" then .ok (Text.Utf8.encode sampleYaml)
  else .error .notFound

theorem plainContent (n : Notation) {cs : List Char}
    (plain : cs.all (fun c => Notation.Printable c ∧ c ≠ '\x22' ∧ c ≠ '\\') = true) :
    n.Content cs cs := by
  induction cs with
  | nil => exact .nil
  | cons c cs ih =>
    rw [List.all_cons, Bool.and_eq_true, decide_eq_true_eq] at plain
    obtain ⟨⟨printable, quote, slash⟩, rest⟩ := plain
    exact .cons (.itself printable quote slash) (ih rest)

theorem sampleTomlDeclares : Notation.toml.Declares sampleToml sample := by
  have gap : Notation.Spaces [] := by simp [Notation.Spaces]
  have digits : List.Forall₂ Json.Grammar.HexDigit [0, 0, 14, 9] ['0', '0', 'E', '9'] :=
    .cons ⟨by decide, .inl rfl⟩ (.cons ⟨by decide, .inl rfl⟩
      (.cons ⟨by decide, .inr rfl⟩ (.cons ⟨by decide, .inl rfl⟩ .nil)))
  have letter : Notation.toml.Spelling '\u00e9' ['\\', 'u', '0', '0', 'E', '9'] :=
    .numeric (by decide) digits (by decide)
  have word : Notation.toml.Content "\u00e9\x22".toList
      ['\\', 'u', '0', '0', 'E', '9', '\\', '\x22'] :=
    .cons letter (.cons (.short (by decide)) .nil)
  exact ⟨[("strict", .truth true), ("format", .text "json"), ("eslint", .text "\u00e9\x22")],
    by decide, .cons gap (.truth true) (.cons gap (.text (plainContent _ (by decide)))
      (.cons gap (.text word) .nil))⟩

theorem sampleYamlDeclares : Notation.yaml.Declares sampleYaml sample := by
  have gap : Notation.Spaces [] := by simp [Notation.Spaces]
  have wide : Notation.Spaces [' '] := by simp [Notation.Spaces]
  have digits : List.Forall₂ Json.Grammar.HexDigit [14, 9] ['e', '9'] :=
    .cons ⟨by decide, .inl rfl⟩ (.cons ⟨by decide, .inl rfl⟩ .nil)
  have letter : Notation.yaml.Spelling '\u00e9' ['\\', 'x', 'e', '9'] :=
    .numeric (by decide) digits (by decide)
  have word : Notation.yaml.Content "\u00e9\x22".toList
      ['\\', 'x', 'e', '9', '\\', '\x22'] :=
    .cons letter (.cons (.short (by decide)) .nil)
  exact ⟨[("eslint", .text "\u00e9\x22"), ("format", .text "json"), ("strict", .truth true)],
    by decide, .cons gap (.text word) (.cons wide (.text (plainContent _ (by decide)))
      (.cons gap (.truth true) .nil))⟩

theorem sourcesAgreeSample : SourcesAgree sampleFiles sample "lint.TOML" "conf/lint.Yml" :=
  sourcesAgree ⟨⟨"TOML", by decide, by decide⟩, sampleToml, sampleTomlDeclares, rfl⟩
    ⟨⟨"Yml", by decide, by decide⟩, sampleYaml, sampleYamlDeclares, rfl⟩

end Settings
end LintGate
