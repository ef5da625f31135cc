import LintGate.Proofs.Stages
import LintGate.Proofs.Text.Naming
import LintGate.Settings.Resolve
/-! Where each part of a plan has its value from. An option decides before the settings file and
that before what is usual, for each part on its own: the other options and keys have no say in
it. -/
namespace LintGate

theorem Format.named {f : Format} {text : String} :
    ofName? text = some f ↔ Text.Names f.name text := by
  refine Text.namedFound ?_ ?_ ?_
  · intro f
    cases f <;> simp [all]
  · intro f g
    cases f <;> cases g <;> simp [name]
  · intro f
    cases f <;> simp [name, Text.Plain]

theorem Preset.named {p : Preset} {text : String} :
    ofName? text = some p ↔ Text.Names p.name text := by
  refine Text.namedFound ?_ ?_ ?_
  · intro p
    cases p <;> simp [all]
  · intro p q
    cases p <;> cases q <;> simp [name]
  · intro p
    cases p <;> simp [name, Text.Plain]

namespace Settings

/-! ### One part of a plan -/

/- What is chosen decides alone, and what is stated only where nothing is chosen. -/
inductive Decides {α γ : Type} (Means : α → γ → Prop) (usual : γ) :
    Option α → Option α → γ → Prop where
  | chosen {a stated c} (meant : Means a c) : Decides Means usual (some a) stated c
  | stated {a c} (meant : Means a c) : Decides Means usual none (some a) c
  | usual : Decides Means usual none none usual

section
variable {α γ : Type} {Means : α → γ → Prop} {usual c c' : γ} {chosen stated stated' : Option α}

theorem decidesInForce : Decides Means usual chosen stated c ↔
    (∃ a, (chosen <|> stated) = some a ∧ Means a c) ∨ (chosen <|> stated) = none ∧ c = usual := by
  constructor
  · intro decides
    cases decides with
    | chosen meant => exact .inl ⟨_, rfl, meant⟩
    | stated meant => exact .inl ⟨_, rfl, meant⟩
    | usual => exact .inr ⟨rfl, rfl⟩
  · intro inForce
    cases chosen with
    | some a =>
      rcases inForce with ⟨_, ⟨⟩, meant⟩ | ⟨⟨⟩, _⟩
      exact .chosen meant
    | none =>
      cases stated with
      | some a =>
        rcases inForce with ⟨_, ⟨⟩, meant⟩ | ⟨⟨⟩, _⟩
        exact .stated meant
      | none =>
        rcases inForce with ⟨_, ⟨⟩, _⟩ | ⟨_, rfl⟩
        exact .usual

/- Two decisions agree if the same is chosen, or nothing is and the same is stated. -/
theorem decidesAlone (meaning : ∀ a x y, Means a x → Means a y → x = y)
    (decides : Decides Means usual chosen stated c)
    (decides' : Decides Means usual chosen stated' c')
    (same : chosen = none → stated' = stated) : c' = c := by
  cases decides with
  | chosen meant =>
    cases decides' with
    | chosen meant' => exact meaning _ _ _ meant' meant
  | stated meant =>
    cases same rfl
    cases decides' with
    | stated meant' => exact meaning _ _ _ meant' meant
  | usual =>
    cases same rfl
    cases decides'
    rfl

end

/- A value that is read from a text, if there is one. -/
def choice {α : Type} (read? : String → Option α) (unknown : String → SettingsError) (usual : α) :
    Option String → Except SettingsError α
  | none => .ok usual
  | some text =>
      match read? text with
      | some a => .ok a
      | none => .error (unknown text)

variable {o : Options} {s : Settings} {p : Plan}

theorem formatChoice :
    chooseFormat o s =
      choice Format.ofName? .unknownFormat Plan.usual.format (o.format <|> s.format) := by
  unfold chooseFormat choice
  cases (o.format <|> s.format) with
  | none => rfl
  | some text =>
    dsimp only
    cases Format.ofName? text <;> rfl

theorem presetChoice :
    choosePreset o s =
      choice Preset.ofName? .unknownPreset Plan.usual.preset (o.preset <|> s.preset) := by
  unfold choosePreset choice
  cases (o.preset <|> s.preset) with
  | none => rfl
  | some text =>
    dsimp only
    cases Preset.ofName? text <;> rfl

section
variable {α : Type} {read? : String → Option α} {unknown : String → SettingsError} {usual a : α}
  {Means : String → α → Prop} (named : ∀ text a, read? text = some a ↔ Means text a)
include named

theorem meansOnce {b : α} {text : String} (means : Means text a) (means' : Means text b) :
    a = b := by
  have read := (named text a).mpr means
  exact Option.some.inj (read.symm.trans ((named text b).mpr means'))

theorem choiceDecides {chosen stated : Option String} :
    choice read? unknown usual (chosen <|> stated) = .ok a ↔
      Decides Means usual chosen stated a := by
  rw [decidesInForce]
  cases (chosen <|> stated) with
  | none => simp [choice, eq_comm]
  | some text =>
    cases read : read? text with
    | some b => simp [choice, read, ← named]
    | none => simp [choice, read, ← named]

theorem choiceRefused {value : Option String} {e : SettingsError} :
    choice read? unknown usual value = .error e ↔
      ∃ text, value = some text ∧ (∀ a, ¬ Means text a) ∧ e = unknown text := by
  cases value with
  | none => simp [choice]
  | some text =>
    cases read : read? text with
    | some b => simp [choice, read, ← named]
    | none => simp [choice, read, ← named, eq_comm]

end

theorem formatRefusal {e : SettingsError} : chooseFormat o s = .error e ↔
    ∃ value, (o.format <|> s.format) = some value ∧ (∀ f : Format, ¬ Text.Names f.name value) ∧
      e = .unknownFormat value := by
  rw [formatChoice]
  exact choiceRefused fun _ _ => Format.named

theorem presetRefusal {e : SettingsError} : choosePreset o s = .error e ↔
    ∃ value, (o.preset <|> s.preset) = some value ∧ (∀ p : Preset, ¬ Text.Names p.name value) ∧
      e = .unknownPreset value := by
  rw [presetChoice]
  exact choiceRefused fun _ _ => Preset.named

/- A flag that is neither chosen nor stated is not set. -/
theorem flagDecides {γ : Type} (meaning : Bool → γ) {chosen stated : Option Bool} {c : γ} :
    meaning (chooseFlag chosen stated) = c ↔
      Decides (meaning · = ·) (meaning false) chosen stated c := by
  rw [decidesInForce, chooseFlag]
  cases (chosen <|> stated) with
  | none => simp [eq_comm]
  | some b => simp

theorem commandDecides {words : List String} :
    commandInForce o s = words ↔
      Decides (· = ·) Plan.usual.command (o.engine.map ([·])) s.command words := by
  rw [decidesInForce, commandInForce]
  cases o.engine with
  | some program => simp
  | none =>
    cases s.command with
    | some stated => simp
    | none => simp [eq_comm]

/- Words that can be started: the first of them shows something. -/
def Runnable (words : List String) : Prop :=
  ∃ program rest, words = program :: rest ∧ ∃ c ∈ program.toList, Text.isBlank c = false

theorem blankCommand {words : List String} :
    words.head?.all Text.isBlankText = true ↔ ¬ Runnable words := by
  cases words with
  | nil => simp [Runnable]
  | cons program rest => simp [Runnable, Text.isBlankText]

theorem commandChosen {words : List String} :
    chooseCommand o s = .ok words ↔ commandInForce o s = words ∧ Runnable words := by
  rw [chooseCommand]
  split
  · rename_i blank
    rw [blankCommand] at blank
    simp only [reduceCtorEq, false_iff, not_and]
    rintro rfl
    exact blank
  · rename_i shown
    rw [blankCommand, not_not] at shown
    simp only [Except.ok.injEq]
    constructor
    · rintro rfl
      exact ⟨rfl, shown⟩
    · exact And.left

theorem commandRefusal {e : SettingsError} :
    chooseCommand o s = .error e ↔ ¬ Runnable (commandInForce o s) ∧ e = .noProgram := by
  rw [chooseCommand, ← blankCommand]
  split
  · rename_i blank
    simp [blank, eq_comm]
  · rename_i shown
    simp [shown]

end Settings

/-! ### Whole plans -/

def Strictness.asked (strict : Bool) : Strictness := if strict then .warnings else .errors

/- Each part of the plan by its own two sources, and a command that can be started. -/
structure Plan.Settled (o : Options) (s : Settings) (p : Plan) : Prop where
  format : Settings.Decides (fun text f => Text.Names f.name text) .stylish o.format s.format
    p.format
  strictness : Settings.Decides (Strictness.asked · = ·) .errors o.strict s.strict p.strictness
  preset : Settings.Decides (fun text q => Text.Names q.name text) .strict o.preset s.preset
    p.preset
  localConfig : Settings.Decides (· = ·) false o.localConfig s.localConfig p.localConfig
  command : Settings.Decides (· = ·) ["eslint"] (o.engine.map ([·])) s.command p.command
  runnable : Settings.Runnable p.command

namespace Settings

variable {o : Options} {s : Settings} {p : Plan}

theorem planSettled : plan o s = .ok p ↔ p.Settled o s := by
  constructor
  · intro planned
    obtain ⟨format, asFormat, planned⟩ := bindOk planned
    obtain ⟨preset, asPreset, planned⟩ := bindOk planned
    obtain ⟨command, asCommand, planned⟩ := bindOk planned
    cases planned
    rw [formatChoice, choiceDecides fun _ _ => Format.named] at asFormat
    rw [presetChoice, choiceDecides fun _ _ => Preset.named] at asPreset
    obtain ⟨words, runnable⟩ := commandChosen.mp asCommand
    exact ⟨asFormat, (flagDecides Strictness.asked).mp rfl, asPreset, (flagDecides id).mp rfl,
      commandDecides.mp words, runnable⟩
  · intro settled
    obtain ⟨format, strictness, preset, localConfig, command⟩ := p
    obtain ⟨asFormat, asStrictness, asPreset, asLocal, asCommand, runnable⟩ := settled
    have formatChosen : chooseFormat o s = .ok format := by
      rw [formatChoice, choiceDecides fun _ _ => Format.named]
      exact asFormat
    have presetChosen : choosePreset o s = .ok preset := by
      rw [presetChoice, choiceDecides fun _ _ => Preset.named]
      exact asPreset
    have words : chooseCommand o s = .ok command :=
      commandChosen.mpr ⟨commandDecides.mpr asCommand, runnable⟩
    have strict : Strictness.asked (chooseFlag o.strict s.strict) = strictness :=
      (flagDecides Strictness.asked).mpr asStrictness
    have discovers : chooseFlag o.localConfig s.localConfig = localConfig :=
      (flagDecides id).mpr asLocal
    rw [plan, formatChosen, presetChosen, words, ← strict, ← discovers]
    rfl

/- A plan goes by what is chosen or else stated, wherever that comes from. -/
theorem planSame {o' : Options} {s' : Settings}
    (format : (o.format <|> s.format) = (o'.format <|> s'.format))
    (strict : (o.strict <|> s.strict) = (o'.strict <|> s'.strict))
    (preset : (o.preset <|> s.preset) = (o'.preset <|> s'.preset))
    (localConfig : (o.localConfig <|> s.localConfig) = (o'.localConfig <|> s'.localConfig))
    (command : commandInForce o s = commandInForce o' s') : plan o s = plan o' s' := by
  unfold plan chooseFormat choosePreset chooseCommand chooseFlag
  rw [format, strict, preset, localConfig, command]

end Settings

variable {read : String → Except Fault (List UInt8)} {o o' : Options} {s s' : Settings}
  {p p' : Plan}

theorem Options.resolveSettled :
    o.resolve read = .ok p ↔ ∃ s, o.settings read = .ok s ∧ p.Settled o s := by
  constructor
  · intro resolved
    obtain ⟨s, loaded, planned⟩ := bindOk resolved
    exact ⟨s, loaded, Settings.planSettled.mp planned⟩
  · intro settled
    obtain ⟨s, loaded, settled⟩ := settled
    rw [resolve, loaded]
    exact Settings.planSettled.mpr settled

/- A part of the plan stays as it is if its option does, and its key where the option is left
out. -/
structure Plan.Unmoved (o o' : Options) (s s' : Settings) (p p' : Plan) : Prop where
  format : o'.format = o.format → (o.format = none → s'.format = s.format) →
    p'.format = p.format
  strictness : o'.strict = o.strict → (o.strict = none → s'.strict = s.strict) →
    p'.strictness = p.strictness
  preset : o'.preset = o.preset → (o.preset = none → s'.preset = s.preset) →
    p'.preset = p.preset
  localConfig : o'.localConfig = o.localConfig →
    (o.localConfig = none → s'.localConfig = s.localConfig) → p'.localConfig = p.localConfig
  command : o'.engine = o.engine → (o.engine = none → s'.command = s.command) →
    p'.command = p.command

theorem Plan.settledUnmoved (settled : p.Settled o s) (settled' : p'.Settled o' s') :
    Unmoved o o' s s' p p' := by
  constructor
  · intro option key
    refine Settings.decidesAlone ?_ settled.format (option ▸ settled'.format) key
    exact fun _ _ _ => Settings.meansOnce fun text f => @Format.named f text
  · intro option key
    exact Settings.decidesAlone (fun _ _ _ same same' => same.symm.trans same')
      settled.strictness (option ▸ settled'.strictness) key
  · intro option key
    refine Settings.decidesAlone ?_ settled.preset (option ▸ settled'.preset) key
    exact fun _ _ _ => Settings.meansOnce fun text q => @Preset.named q text
  · intro option key
    exact Settings.decidesAlone (fun _ _ _ same same' => same.symm.trans same')
      settled.localConfig (option ▸ settled'.localConfig) key
  · intro option key
    refine Settings.decidesAlone (fun _ _ _ same same' => same.symm.trans same')
      settled.command (option ▸ settled'.command) ?_
    simpa using key

/- Another value that is accepted, for one option, changes its own part of the plan alone. -/
structure Plan.Changes (read : String → Except Fault (List UInt8)) (o : Options) (p : Plan) :
    Prop where
  format : ∀ text f, Text.Names f.name text →
    { o with format := some text }.resolve read = .ok { p with format := f }
  strict : ∀ b, { o with strict := some b }.resolve read = .ok { p with strictness := .asked b }
  preset : ∀ text q, Text.Names q.name text →
    { o with preset := some text }.resolve read = .ok { p with preset := q }
  localConfig : ∀ b,
    { o with localConfig := some b }.resolve read = .ok { p with localConfig := b }
  engine : ∀ program, Settings.Runnable [program] →
    { o with engine := some program }.resolve read = .ok { p with command := [program] }

theorem Plan.settledChanges (loaded : o.settings read = .ok s) (settled : p.Settled o s) :
    Changes read o p := by
  obtain ⟨format, strictness, preset, localConfig, command, runnable⟩ := settled
  constructor
  · intro text f names
    exact Options.resolveSettled.mpr
      ⟨s, loaded, .chosen names, strictness, preset, localConfig, command, runnable⟩
  · intro b
    exact Options.resolveSettled.mpr
      ⟨s, loaded, format, .chosen rfl, preset, localConfig, command, runnable⟩
  · intro text q names
    exact Options.resolveSettled.mpr
      ⟨s, loaded, format, strictness, .chosen names, localConfig, command, runnable⟩
  · intro b
    exact Options.resolveSettled.mpr
      ⟨s, loaded, format, strictness, preset, .chosen rfl, command, runnable⟩
  · intro program shown
    exact Options.resolveSettled.mpr
      ⟨s, loaded, format, strictness, preset, localConfig, .chosen rfl, shown⟩

end LintGate
