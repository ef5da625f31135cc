import LintGate.Proofs.Program.Calls
/-! Whether a run may change the files that it checks. No word that is added to the command asks
for that; but a command from a settings file is passed on as it stands, and such a word with it. -/
namespace LintGate

def fixWord : String := "--fix"

/-! ### The words of a command -/

/- Where the command in force has its words from. Only a settings file can give it more than the
program. -/
inductive Options.Words (read : String → Except Fault (List UInt8)) (o : Options) :
    List String → Prop where
  | option {program} (chosen : o.engine = some program) : Words read o [program]
  | file {path s words} (unchosen : o.engine = none) (named : o.config = some path)
      (loaded : Settings.load read path = .ok s) (stated : s.command = some words) :
      Words read o words
  | usual (unchosen : o.engine = none) : Words read o Plan.usual.command

theorem Options.resolvedWords {read : String → Except Fault (List UInt8)} {o : Options} {p : Plan}
    (resolved : o.resolve read = .ok p) : Words read o p.command := by
  obtain ⟨s, found, planned⟩ := bindOk resolved
  rw [(Settings.planWords planned).1, Settings.commandInForce]
  cases chosen : o.engine with
  | some program => exact .option chosen
  | none =>
    unfold settings at found
    cases named : o.config with
    | none =>
      rw [named] at found
      cases found
      exact .usual chosen
    | some path =>
      rw [named] at found
      cases stated : s.command with
      | none => exact .usual chosen
      | some words => exact .file chosen named found stated

/-! ### The words of a call -/

theorem Scratch.freshOther (s : Scratch) : s.path s.freshName ≠ fixWord := by
  intro same
  have lengths := congrArg String.length same
  have begins : "jqlint-".length = 7 := rfl
  have fix : fixWord.length = 5 := rfl
  simp only [path, freshName, String.length_append] at lengths
  omega

theorem Engine.optionsOther {directory : String} (absolute : Path.isAbsolute directory = true)
    (rules : Ruleset) : fixWord ∉ options rules directory := by
  have other : fixWord ≠ directory := by
    rintro rfl
    contradiction
  have named : fixWord ∉ ["--resolve-plugins-relative-to", directory, "--format", "json"] := by
    simp [other]
    decide
  have hermetic : fixWord ∉ if rules.localConfig then [] else ["--no-eslintrc"] := by
    split <;> decide
  rw [options, List.mem_append]
  exact fun member => member.elim named hermetic

namespace Program
open Selection (presentIn)

/- The words of a call in front of the paths are those of the command and those that are added.
A command of more than one word is the one that a settings file states. -/
structure Added (h : Host) (i : Invocation) (p : Plan) (c : Call) (leading own : List String) :
    Prop where
  command : p.command = c.program :: leading
  arguments : c.arguments = leading ++ own ++ "--" :: presentIn h.probe i.files
  harmless : fixWord ∉ own
  stated : leading ≠ [] → ∃ path s, i.options.engine = none ∧ i.options.config = some path ∧
    Settings.load h.read path = .ok s ∧ s.command = some p.command

theorem leadingStated {h : Host} {o : Options} {program : String} {leading words : List String}
    (source : o.Words h.read words) (command : words = program :: leading)
    (more : leading ≠ []) :
    ∃ path s, o.engine = none ∧ o.config = some path ∧ Settings.load h.read path = .ok s ∧
      s.command = some words := by
  cases source with
  | option chosen =>
    cases command
    contradiction
  | file unchosen named loaded stated => exact ⟨_, _, unchosen, named, loaded, stated⟩
  | usual unchosen =>
    cases command
    contradiction

theorem fixOnlyConfigured (h : Host) (absolute : Path.isAbsolute h.directory = true)
    (argv : List String) :
    ∀ c ∈ (run h argv).calls, ∃ i p leading own, CommandLine.read argv = .ok i ∧
      i.options.resolve h.read = .ok p ∧ Added h i p c leading own := by
  intro c called
  obtain ⟨i, p, parsed, resolved, ready⟩ := calledReady called
  obtain ⟨leading, command, same⟩ := ready.command
  let own := "--config" :: h.scratch.path h.scratch.freshName ::
    Engine.options (engine p).ruleset h.directory
  refine ⟨i, p, leading, own, parsed, resolved, command, ?_, ?_,
    leadingStated (Options.resolvedWords resolved) command⟩
  · rw [same]
    exact Engine.callArguments _ h c.program leading _
  · have config : fixWord ≠ "--config" := by decide
    have file := h.scratch.freshOther.symm
    simp only [own, List.mem_cons, not_or]
    exact ⟨config, file, Engine.optionsOther absolute _⟩

/-! ### A settings file that asks for fixing -/

def fixingSettings : String := "eslint: [eslint, --fix]\n"

theorem fixOnlyConfiguredSample :
    let h := givenHost fixingSettings "[]"
    let argv := ["--config", "lint.yaml", "a.js"]
    Path.isAbsolute h.directory = true ∧
      ∀ c ∈ (run h argv).calls, ∃ i p leading own, CommandLine.read argv = .ok i ∧
        i.options.resolve h.read = .ok p ∧ Added h i p c leading own := by
  intro h argv
  have absolute : Path.isAbsolute h.directory = true := by decide
  exact ⟨absolute, fixOnlyConfigured h absolute argv⟩

theorem fixConfigured :
    (run (givenHost fixingSettings "[]") ["--config", "lint.yaml", "a.js"]).calls.map
        Call.arguments =
      [["--fix", "--config", "/tmp/jqlint-.json", "--resolve-plugins-relative-to", "/work",
        "--format", "json", "--no-eslintrc", "--", "a.js"]] := by
  decide +kernel

end Program
end LintGate
