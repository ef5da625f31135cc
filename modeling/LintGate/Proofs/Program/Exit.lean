import LintGate.Program
import LintGate.Proofs.Engine.Outcome
import LintGate.Proofs.Run.Ending
import LintGate.Proofs.Settings.Precedence
/-! The exit code of the program. It is 0 only where the whole chain held, from the settings to the
totals of the report; whatever breaks on the way makes it 1. -/
namespace LintGate

/-! ### The engine -/
namespace Engine

def Answers (e : Engine) (h : Host) (paths : List String) (r : Report) : Prop :=
  ∃ program leading reply, e.command = program :: leading ∧ h.scratch.fault = none ∧
    h.launch (call e.ruleset h program leading paths) = .ok reply ∧
    (reply.ending = .exited 0 ∨ reply.ending = .exited 1) ∧
    Report.Native.read (Text.Utf8.decodeLossy reply.stdout) = .ok r

theorem checkAnswers {e : Engine} {h : Host} {paths : List String} {r : Report} :
    (e.checker h).check paths = .ok r ↔ Answers e h paths r := by
  show (check e h paths).result = .ok r ↔ _
  constructor
  · intro found
    have concludes := checkConcludes e h paths
    rw [found] at concludes
    generalize (check e h paths).calls = calls at concludes
    cases concludes with
    | @reported c reply _ ready started reports read =>
      obtain ⟨leading, command, same⟩ := ready.command
      exact ⟨c.program, leading, reply, command, ready.writable, same ▸ started, reports, read⟩
  · intro answers
    obtain ⟨program, leading, reply, command, writable, started, reports, read⟩ := answers
    rw [concludesCheck (.reported (readyNamed command writable) started reports read)]

/- The styles that a format asks for are all known to the engine. -/
theorem renders (e : Engine) (h : Host) (f : Format) (r : Report) (s : Summary) :
    ∃ text, Report.render h (e.checker h) f r s = .ok text := by
  unfold Report.render
  cases asked : f.style? with
  | some style =>
    refine ⟨style.render h.directory h.colors r, ?_⟩
    show Engine.style h r style.name = _
    simp only [Engine.style, Style.ofNameName]
  | none =>
    dsimp only
    split
    · exact ⟨_, rfl⟩
    · exact ⟨_, rfl⟩

end Engine

/-! ### Settings -/

theorem Settings.planWords {o : Options} {s : Settings} {p : Plan} (planned : plan o s = .ok p) :
    p.command = commandInForce o s ∧ p.command ≠ [] := by
  have settled := planSettled.mp planned
  refine ⟨(commandDecides.mpr settled.command).symm, ?_⟩
  obtain ⟨program, rest, words, _⟩ := settled.runnable
  simp [words]

theorem Options.resolvedCommand {read : String → Except Fault (List UInt8)} {o : Options} {p : Plan}
    (resolved : o.resolve read = .ok p) : p.command ≠ [] := by
  obtain ⟨s, _, planned⟩ := bindOk resolved
  exact (Settings.planWords planned).2

/-! ### The decision -/
namespace Program
open Selection (presentIn)

def Harmless (p : Plan) (r : Report) : Prop :=
  r.total FileReport.errors = 0 ∧
    (p.strictness = .warnings → r.total FileReport.warnings = 0)

def Passes (h : Host) (i : Invocation) : Prop :=
  ∃ p, i.options.resolve h.read = .ok p ∧ i.files ≠ [] ∧
    ((∀ path ∈ i.files, h.probe path ≠ .ok true) ∨
      ∃ r, (engine p).Answers h (presentIn h.probe i.files) r ∧ Harmless p r)

theorem runSuccess {h : Host} {p : Plan} {files : List String} :
    (LintGate.run h ((engine p).checker h) p files).status = .success ↔
      files ≠ [] ∧ ((∀ path ∈ files, h.probe path ≠ .ok true) ∨
        ∃ r, (engine p).Answers h (presentIn h.probe files) r ∧ Harmless p r) := by
  rw [Run.endsSuccess (Run.runEnds h ((engine p).checker h) p files), Selection.presentNone]
  refine and_congr_right fun _ => or_congr_right ?_
  constructor
  · intro found
    obtain ⟨r, text, checked, _, passed⟩ := found
    exact ⟨r, Engine.checkAnswers.mp checked, Run.verdictPasses.mp passed⟩
  · intro found
    obtain ⟨r, answers, harmless⟩ := found
    obtain ⟨text, rendered⟩ := (engine p).renders h p.format r (Summary.ofReport r)
    exact ⟨r, text, Engine.checkAnswers.mpr answers, rendered, Run.verdictPasses.mpr harmless⟩

theorem codeZero {s : Status} : s.code = 0 ↔ s = .success := by
  cases s with
  | success => simp [Status.code]
  | failure => simp [Status.code]

theorem codeOne {s : Status} : s.code = 1 ↔ ¬ s = .success := by
  cases s with
  | success => simp [Status.code]
  | failure => simp [Status.code]

theorem runPasses {h : Host} {argv : List String} {i : Invocation}
    (parsed : CommandLine.read argv = .ok i) :
    ((run h argv).code = 0 ↔ Passes h i) ∧ ((run h argv).code = 1 ↔ ¬ Passes h i) := by
  unfold run Passes
  rw [parsed]
  dsimp only
  cases resolved : i.options.resolve h.read with
  | error e => simp [unsettled]
  | ok p =>
    have success := @runSuccess h p i.files
    constructor
    · exact codeZero.trans (by simpa using success)
    · exact codeOne.trans (by simpa using not_congr success)

theorem exitDecision (h : Host) (argv : List String) :
    match CommandLine.read argv with
    | .ok i => ((run h argv).code = 0 ↔ Passes h i) ∧ ((run h argv).code = 1 ↔ ¬ Passes h i) ∧
        ∀ p, i.options.resolve h.read = .ok p → p.command ≠ []
    | .error .help | .error .version => (run h argv).code = 0 ∧ (run h argv).calls = []
    | .error (.misuse _) => (run h argv).code = 2 ∧ (run h argv).calls = [] := by
  cases parsed : CommandLine.read argv with
  | ok i =>
    obtain ⟨zero, one⟩ := runPasses parsed (h := h)
    exact ⟨zero, one, fun p => Options.resolvedCommand⟩
  | error s =>
    unfold run
    rw [parsed]
    cases s with
    | help | version | misuse => exact ⟨rfl, rfl⟩

end Program
end LintGate
