import LintGate.Proofs.Program.Presentation
import LintGate.Proofs.Settings.Refusal
/-! What becomes of options and settings in a run of the program. Either a plan comes of them, each
part by its own sources and with a command that has a program; or they are refused for the first
thing that is wrong with them, and then nothing is run. -/
namespace LintGate

/-! ### Refusals -/

/- Files that say the same wherever the options are silent. -/
structure Settings.AgreeBelow (o : Options) (s s' : Settings) : Prop where
  format : o.format = none → s'.format = s.format
  strict : o.strict = none → s'.strict = s.strict
  preset : o.preset = none → s'.preset = s.preset
  localConfig : o.localConfig = none → s'.localConfig = s.localConfig
  command : o.engine = none → s'.command = s.command

theorem Settings.belowSame {α : Type} {chosen stated stated' : Option α}
    (same : chosen = none → stated' = stated) : (chosen <|> stated') = (chosen <|> stated) := by
  cases chosen with
  | some a => rfl
  | none => rw [same rfl]

theorem Settings.agreePlan {o : Options} {s s' : Settings} (agree : AgreeBelow o s s') :
    plan o s' = plan o s := by
  refine planSame (belowSame agree.format) (belowSame agree.strict) (belowSame agree.preset)
    (belowSame agree.localConfig) ?_
  unfold commandInForce
  cases engine : o.engine with
  | some program => rfl
  | none => rw [agree.command engine]

namespace Program
open Selection (presentIn)

/- How options and a settings file that are refused are dealt with. The value that is told of is the
one in force, so that what an option overrides is never told of; but a file that cannot be loaded
is, whatever the options say. -/
structure Refuses (h : Host) (o : Options) : Prop where
  told : ∀ e, o.resolve h.read = .error e ↔ o.Reports h.read e
  whenever : (∃ e, o.resolve h.read = .error e) ↔ ∃ e, o.Fails h.read e
  overridden : ∀ (h' : Host) config s s', o.settings h.read = .ok s →
    { o with config }.settings h'.read = .ok s' → s.AgreeBelow o s' →
    { o with config }.resolve h'.read = o.resolve h.read
  ownFormat : ∀ text value, o.format = some text →
    o.resolve h.read = .error (.unknownFormat value) → value = text
  ownPreset : ∀ text value, o.preset = some text →
    o.resolve h.read = .error (.unknownPreset value) → value = text
  ownProgram : ∀ program, o.engine = some program → o.resolve h.read = .error .noProgram →
    Text.isBlankText program = true
  unloaded : ∀ e (o' : Options), o.settings h.read = .error e → o'.config = o.config →
    o'.resolve h.read = .error e
  ended : ∀ argv (i : Invocation) e, CommandLine.read argv = .ok i → i.options = o →
    o.resolve h.read = .error e → run h argv =
      ⟨1, "", Text.line (Sign.error.mark h.colors e.message), none, [], h.scratch⟩

variable {h : Host} {o : Options} {s s' : Settings}

theorem loadedResolve {read : String → Except Fault (List UInt8)}
    (loaded : o.settings read = .ok s) : o.resolve read = Settings.plan o s := by
  rw [Options.resolve, loaded]
  rfl

theorem ownValue {α : Type} {chosen : Option α} {stated : Settings → Option α} {a b : α}
    (given : chosen = some a) (inForce : o.InForce h.read chosen stated b) : b = a := by
  cases inForce with
  | chosen given' => exact Option.some.inj (given'.symm.trans given)
  | stated left => cases left.symm.trans given

theorem settingsRefused (h : Host) (o : Options) : Refuses h o := by
  constructor
  · exact fun e => Options.refusalReports
  · constructor
    · intro refusal
      obtain ⟨e, refused⟩ := refusal
      exact ⟨e, (Options.resolveReports refused).fails⟩
    · intro failing
      obtain ⟨e, fails⟩ := failing
      cases resolved : o.resolve h.read with
      | error e' => exact ⟨e', rfl⟩
      | ok p => exact absurd fails (Options.resolvedSound resolved)
  · intro h' config s s' loaded loaded' agree
    rw [loadedResolve loaded, loadedResolve loaded', ← Settings.agreePlan agree]
    rfl
  · intro text value given refused
    cases (Options.resolveReports refused).fails with
    | unknownFormat inForce => exact ownValue given inForce
  · intro text value given refused
    cases (Options.resolveReports refused).fails with
    | unknownPreset inForce => exact ownValue given inForce
  · intro program given refused
    cases (Options.resolveReports refused).fails with
    | noProgram inForce idle =>
      cases ownValue (congrArg (Option.map ([·])) given) inForce
      simpa using Settings.blankCommand.mpr idle
  · intro e o' unloaded same
    rw [Options.resolve, Options.settings, same, ← Options.settings, unloaded]
    rfl
  · intro argv i e parsed same refused
    subst o
    unfold run
    simp only [parsed, refused]
    rfl

/-! ### Plans -/

/- What a check fails to start is the first word of its command, if there is one. -/
theorem notStartedFirst {e : Engine} {paths : List String} {program : String} {fault : Fault}
    (named : e.command ≠ [])
    (failed : (e.check h paths).result = .error (.notStarted program fault)) :
    ∃ leading, e.command = program :: leading := by
  have concludes := e.checkConcludes h paths
  rw [failed] at concludes
  generalize (e.check h paths).calls = calls at concludes
  cases concludes with
  | noCommand absent => contradiction
  | notStarted ready =>
    obtain ⟨leading, command, _⟩ := ready.command
    exact ⟨leading, command⟩

theorem runnableStarts {p : Plan} {paths : List String} {fault : Fault}
    (runnable : Settings.Runnable p.command) :
    ((engine p).check h paths).result ≠ .error (.notStarted "" fault) := by
  intro failed
  obtain ⟨program, rest, words, c, member, _⟩ := runnable
  obtain ⟨leading, command⟩ := notStartedFirst (by simp [engine, words]) failed
  cases words.symm.trans command
  simp at member

/- A plan that comes of options and settings: where its parts are from, what another value of an
option or a key does to them, and that the check never lacks a program. -/
structure Plans (h : Host) (o : Options) (s : Settings) (p : Plan) : Prop where
  settled : p.Settled o s
  unmoved : ∀ (h' : Host) (o' : Options) s' p', o'.settings h'.read = .ok s' →
    o'.resolve h'.read = .ok p' → p.Unmoved o o' s s' p'
  changes : p.Changes h.read o
  accepted : ∀ (h' : Host) s' p', o.settings h'.read = .ok s' → p'.Settled o s' →
    o.resolve h'.read = .ok p'
  starts : ∀ paths fault, ((engine p).check h paths).result ≠ .error (.notStarted "" fault)
  ran : ∀ argv (i : Invocation), CommandLine.read argv = .ok i → i.options = o →
    run h argv = perform h p i.files ∧
      ∀ fault, .checkFailed (.notStarted "" fault) ∉ (runPlan h p i.files).1.events

theorem settingsPlanned {h : Host} {o : Options} {p : Plan} (resolved : o.resolve h.read = .ok p) :
    ∃ s, o.settings h.read = .ok s ∧ Plans h o s p := by
  obtain ⟨s, loaded, settled⟩ := Options.resolveSettled.mp resolved
  refine ⟨s, loaded, settled, ?_, Plan.settledChanges loaded settled, ?_, ?_, ?_⟩
  · intro h' o' s' p' loaded' resolved'
    obtain ⟨found, again, settled'⟩ := Options.resolveSettled.mp resolved'
    cases loaded'.symm.trans again
    exact Plan.settledUnmoved settled settled'
  · intro h' s' p' loaded' settled'
    exact Options.resolveSettled.mpr ⟨s', loaded', settled'⟩
  · intro paths fault
    exact runnableStarts settled.runnable
  · intro argv i parsed same
    subst o
    constructor
    · unfold run
      simp only [parsed, resolved]
    · intro fault told
      exact runnableStarts settled.runnable (complaintChecked told).2

/- The file has a format that the option overrides, and the option is not to the letter. -/
theorem settingsPlannedSample :
    let h := givenHost "format: loose\nstrict: true\neslint: [npx, eslint]\n" "[]"
    let o : Options := ⟨some "lint.yaml", some "\u2003JSON", none, none, some false, none⟩
    let p : Plan := ⟨.json, .warnings, .strict, false, ["npx", "eslint"]⟩
    o.resolve h.read = .ok p ∧ ∃ s, o.settings h.read = .ok s ∧ Plans h o s p := by
  intro h o p
  have resolved : o.resolve h.read = .ok p := by decide +kernel
  exact ⟨resolved, settingsPlanned resolved⟩

end Program
end LintGate
