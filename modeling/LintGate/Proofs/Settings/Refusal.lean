import LintGate.Proofs.Settings.Loading
import LintGate.Proofs.Settings.Precedence
/-! Why settings are refused. There are six reasons, each with a condition of its own on the options
and the file; where several of them hold it is the first one that is told. -/
namespace LintGate

/-! ### Reasons -/
namespace Options

/- A value in force is one that is chosen, or else stated by a file that could be loaded. -/
inductive InForce (read : String → Except Fault (List UInt8)) (o : Options) {α : Type}
    (chosen : Option α) (stated : Settings → Option α) : α → Prop where
  | chosen {a} (given : chosen = some a) : InForce read o chosen stated a
  | stated {a s} (left : chosen = none) (loaded : o.settings read = .ok s)
      (set : stated s = some a) : InForce read o chosen stated a

/- What is wrong, whatever else may be wrong as well. -/
inductive Fails (read : String → Except Fault (List UInt8)) (o : Options) :
    SettingsError → Prop where
  | unsupported {path} (named : o.config = some path) (unknown : ∀ n, ¬ Notation.Marks n path) :
      Fails read o (.unsupported path)
  | unreadable {path fault} (named : o.config = some path)
      (refused : Settings.Unreadable read path fault) : Fails read o (.unreadable path fault)
  | malformed {path n text} (named : o.config = some path) (marks : Notation.Marks n path)
      (stored : Settings.Stored read path text) (invalid : Settings.ofText? n text = none) :
      Fails read o (.malformed path)
  | unknownFormat {value} (inForce : o.InForce read o.format Settings.format value)
      (unknown : ∀ f : Format, ¬ Text.Names f.name value) : Fails read o (.unknownFormat value)
  | unknownPreset {value} (inForce : o.InForce read o.preset Settings.preset value)
      (unknown : ∀ p : Preset, ¬ Text.Names p.name value) : Fails read o (.unknownPreset value)
  | noProgram {words} (inForce : o.InForce read (o.engine.map ([·])) Settings.command words)
      (idle : ¬ Settings.Runnable words) : Fails read o .noProgram

end Options

/- The order in which the reasons are looked for. -/
def SettingsError.stage : SettingsError → Nat
  | unsupported _ => 0
  | unreadable _ _ => 1
  | malformed _ => 2
  | unknownFormat _ => 3
  | unknownPreset _ => 4
  | noProgram => 5

/- Of all that is wrong, what is looked for first. -/
structure Options.Reports (read : String → Except Fault (List UInt8)) (o : Options)
    (e : SettingsError) : Prop where
  fails : o.Fails read e
  first : ∀ e', o.Fails read e' → e.stage ≤ e'.stage

namespace Options

variable {read : String → Except Fault (List UInt8)} {o : Options} {s : Settings}
  {path text : String} {n : Notation} {e e' : SettingsError}

theorem inForceLoaded {α : Type} {chosen : Option α} {stated : Settings → Option α} {a : α}
    (loaded : o.settings read = .ok s) :
    o.InForce read chosen stated a ↔ (chosen <|> stated s) = some a := by
  constructor
  · intro inForce
    cases inForce with
    | chosen given => simp [given]
    | stated left again set =>
      cases loaded.symm.trans again
      simpa [left] using set
  · intro value
    cases chosen with
    | some b =>
      cases value
      exact .chosen rfl
    | none => exact .stated rfl loaded (by simpa using value)

theorem idleCommand (loaded : o.settings read = .ok s) :
    (∃ words, o.InForce read (o.engine.map ([·])) Settings.command words ∧
      ¬ Settings.Runnable words) ↔ ¬ Settings.Runnable (Settings.commandInForce o s) := by
  have usual : Settings.Runnable Plan.usual.command := ⟨"eslint", [], rfl, 'e', by simp, rfl⟩
  simp only [inForceLoaded loaded, Settings.commandInForce]
  cases o.engine with
  | some program => simp
  | none =>
    cases s.command with
    | some words => simp
    | none => simp [usual]

/-! ### Looking for them in order -/

theorem settingsNamed (named : o.config = some path) :
    o.settings read = Settings.load read path := by
  rw [settings, named]

theorem pastNotation (named : o.config = some path) (marks : n.Marks path)
    (fails : o.Fails read e) : 1 ≤ e.stage := by
  cases fails with
  | unsupported named' unknown =>
    cases named.symm.trans named'
    exact absurd marks (unknown n)
  | _ => simp [SettingsError.stage]

theorem pastReading (named : o.config = some path) (marks : n.Marks path)
    (stored : Settings.Stored read path text) (fails : o.Fails read e) : 2 ≤ e.stage := by
  have past := pastNotation named marks fails
  cases fails with
  | unsupported => simp [SettingsError.stage] at past
  | unreadable named' refused =>
    cases named.symm.trans named'
    have unread := Settings.textUnreadable.mpr refused
    rw [Settings.textStored.mpr stored] at unread
    cases unread
  | _ => simp [SettingsError.stage]

theorem pastLoading (loaded : o.settings read = .ok s) (fails : o.Fails read e) :
    3 ≤ e.stage := by
  have parts {path : String} (named : o.config = some path) := Settings.loadOk.mp
    ((settingsNamed named).symm.trans loaded)
  cases fails with
  | unsupported named unknown =>
    obtain ⟨n, _, marks, _⟩ := parts named
    exact absurd marks (unknown n)
  | unreadable named refused =>
    obtain ⟨n, text, marks, stored, _⟩ := parts named
    have past := pastReading named marks stored (.unreadable named refused)
    simp [SettingsError.stage] at past
  | malformed named marks stored invalid =>
    obtain ⟨n, text, marks', stored', stated⟩ := parts named
    cases (Settings.notationMarks.mpr marks).symm.trans (Settings.notationMarks.mpr marks')
    cases (Settings.textStored.mpr stored).symm.trans (Settings.textStored.mpr stored')
    cases invalid.symm.trans stated
  | _ => simp [SettingsError.stage]

theorem pastFormat {f : Format} (loaded : o.settings read = .ok s)
    (chosen : Settings.chooseFormat o s = .ok f) (fails : o.Fails read e) : 4 ≤ e.stage := by
  have past := pastLoading loaded fails
  cases fails with
  | unknownFormat inForce unknown =>
    have refused := Settings.formatRefusal.mpr ⟨_, (inForceLoaded loaded).mp inForce, unknown, rfl⟩
    cases chosen.symm.trans refused
  | unsupported | unreadable | malformed => simp [SettingsError.stage] at past
  | unknownPreset | noProgram => simp [SettingsError.stage]

theorem pastPreset {f : Format} {p : Preset} (loaded : o.settings read = .ok s)
    (chosen : Settings.chooseFormat o s = .ok f) (chosen' : Settings.choosePreset o s = .ok p)
    (fails : o.Fails read e) : 5 ≤ e.stage := by
  have past := pastFormat loaded chosen fails
  cases fails with
  | unknownPreset inForce unknown =>
    have refused := Settings.presetRefusal.mpr ⟨_, (inForceLoaded loaded).mp inForce, unknown, rfl⟩
    cases chosen'.symm.trans refused
  | noProgram => simp [SettingsError.stage]
  | _ => simp [SettingsError.stage] at past

/- Settings in order have nothing wrong with them. -/
theorem resolvedSound {p : Plan} (resolved : o.resolve read = .ok p) : ¬ o.Fails read e := by
  intro fails
  obtain ⟨s, loaded, planned⟩ := bindOk resolved
  obtain ⟨format, chosen, planned⟩ := bindOk planned
  obtain ⟨preset, chosen', planned⟩ := bindOk planned
  obtain ⟨words, started, _⟩ := bindOk planned
  have past := pastPreset loaded chosen chosen' fails
  cases fails with
  | noProgram inForce idle =>
    obtain ⟨rfl, runnable⟩ := Settings.commandChosen.mp started
    exact (idleCommand loaded).mp ⟨_, inForce, idle⟩ runnable
  | _ => simp [SettingsError.stage] at past

/-! ### What is told -/

theorem settingsReports (refused : o.settings read = .error e) : o.Reports read e := by
  cases named : o.config with
  | none =>
    rw [settings, named] at refused
    cases refused
  | some path =>
    rw [settingsNamed named, Settings.load] at refused
    cases written : Settings.notation? path with
    | none =>
      simp only [written] at refused
      cases refused
      refine ⟨.unsupported named ?_, fun e' _ => Nat.zero_le e'.stage⟩
      intro n marks
      cases written.symm.trans (Settings.notationMarks.mpr marks)
    | some n =>
      have marks := Settings.notationMarks.mp written
      cases content : Settings.readText read path with
      | error fault =>
        simp only [written, content] at refused
        cases refused
        exact ⟨.unreadable named (Settings.textUnreadable.mp content),
          fun e' => pastNotation named marks⟩
      | ok text =>
        have stored := Settings.textStored.mp content
        cases stated : Settings.ofText? n text with
        | none =>
          simp only [written, content, stated] at refused
          cases refused
          exact ⟨.malformed named marks stored stated, fun e' => pastReading named marks stored⟩
        | some s => simp [written, content, stated] at refused

theorem resolveReports (refused : o.resolve read = .error e) : o.Reports read e := by
  rcases bindError refused with unloaded | ⟨s, loaded, refused⟩
  · exact settingsReports unloaded
  rcases bindError refused with format | ⟨f, chosen, refused⟩
  · obtain ⟨value, inForce, unknown, rfl⟩ := Settings.formatRefusal.mp format
    exact ⟨.unknownFormat ((inForceLoaded loaded).mpr inForce) unknown,
      fun e' => pastLoading loaded⟩
  rcases bindError refused with preset | ⟨p, chosen', refused⟩
  · obtain ⟨value, inForce, unknown, rfl⟩ := Settings.presetRefusal.mp preset
    exact ⟨.unknownPreset ((inForceLoaded loaded).mpr inForce) unknown,
      fun e' => pastFormat loaded chosen⟩
  rcases bindError refused with command | ⟨words, started, refused⟩
  · obtain ⟨idle, rfl⟩ := Settings.commandRefusal.mp command
    obtain ⟨words, inForce, idle⟩ := (idleCommand loaded).mpr idle
    exact ⟨.noProgram inForce idle, fun e' => pastPreset loaded chosen chosen'⟩
  · cases refused

theorem inForceOnce {α : Type} {chosen : Option α} {stated : Settings → Option α} {a b : α}
    (inForce : o.InForce read chosen stated a) (again : o.InForce read chosen stated b) :
    a = b := by
  cases inForce with
  | chosen given =>
    cases again with
    | chosen given' => exact Option.some.inj (given.symm.trans given')
    | stated left => cases left.symm.trans given
  | stated left loaded set =>
    exact Option.some.inj (((inForceLoaded loaded).mp again).symm.trans (by simp [left, set])).symm

/- Nothing is wrong in two ways at one stage. -/
theorem failsOnce (fails : o.Fails read e) (fails' : o.Fails read e')
    (same : e.stage = e'.stage) : e = e' := by
  cases fails with
  | unsupported named =>
    cases fails' with
    | unsupported named' =>
      cases named.symm.trans named'
      rfl
    | _ => simp [SettingsError.stage] at same
  | unreadable named refused =>
    cases fails' with
    | unreadable named' refused' =>
      cases named.symm.trans named'
      cases (Settings.textUnreadable.mpr refused).symm.trans (Settings.textUnreadable.mpr refused')
      rfl
    | _ => simp [SettingsError.stage] at same
  | malformed named =>
    cases fails' with
    | malformed named' =>
      cases named.symm.trans named'
      rfl
    | _ => simp [SettingsError.stage] at same
  | unknownFormat inForce =>
    cases fails' with
    | unknownFormat inForce' => rw [inForceOnce inForce inForce']
    | _ => simp [SettingsError.stage] at same
  | unknownPreset inForce =>
    cases fails' with
    | unknownPreset inForce' => rw [inForceOnce inForce inForce']
    | _ => simp [SettingsError.stage] at same
  | noProgram =>
    cases fails' with
    | noProgram => rfl
    | _ => simp [SettingsError.stage] at same

theorem refusalReports : o.resolve read = .error e ↔ o.Reports read e := by
  constructor
  · exact resolveReports
  · intro reports
    obtain ⟨fails, first⟩ := reports
    cases resolved : o.resolve read with
    | ok p => exact absurd fails (resolvedSound resolved)
    | error e' =>
      obtain ⟨fails', first'⟩ := resolveReports resolved
      rw [failsOnce fails fails' (Nat.le_antisymm (first e' fails') (first' e fails))]

end Options
end LintGate
