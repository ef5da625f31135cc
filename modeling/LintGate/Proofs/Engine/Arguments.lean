import LintGate.Engine
/-! The words that an engine is given behind its command, read back. The paths are whatever they
are; but no option is an absolute path, so that the words in front of the first `--` can be told
apart, and from them what the engine was asked for. -/
namespace LintGate.Engine

/-! ### Switches -/

/- An option, and its value if it takes one. -/
structure Switch where
  word : String
  value : Option String

def Switch.words (s : Switch) : List String := s.word :: s.value.toList

section
variable {switches : List Switch} {word : String}
  (apart : ∀ s ∈ switches, ∀ v, s.value = some v → v ≠ word)
include apart

theorem switchMember : word ∈ switches.flatMap Switch.words ↔ word ∈ switches.map Switch.word := by
  rw [List.mem_flatMap, List.mem_map]
  constructor
  · intro member
    obtain ⟨s, there, inside⟩ := member
    rcases List.mem_cons.mp inside with same | asValue
    · exact ⟨s, there, same.symm⟩
    · exact absurd rfl (apart s there word (Option.mem_toList.mp asValue))
  · intro named
    obtain ⟨s, there, rfl⟩ := named
    exact ⟨s, there, List.mem_cons_self⟩

/- What stands right behind a word is its value, if that word always takes one. -/
theorem switchFollows (valued : ⟨word, none⟩ ∉ switches) {value : String} :
    [word, value] <:+: switches.flatMap Switch.words ↔ ⟨word, some value⟩ ∈ switches := by
  induction switches with
  | nil => simp
  | cons s rest ih =>
    have behind := ih (fun t later => apart t (List.mem_cons_of_mem s later))
      (fun later => valued (List.mem_cons_of_mem s later))
    have first := apart s List.mem_cons_self
    obtain ⟨name, given⟩ := s
    rw [List.flatMap_cons, List.mem_cons, ← behind]
    cases given with
    | none =>
      have other : word ≠ name := by
        intro same
        subst same
        exact valued List.mem_cons_self
      simp [Switch.words, List.infix_cons_iff, other]
    | some v =>
      have other : word ≠ v := (first v rfl).symm
      simp [Switch.words, List.infix_cons_iff, other]

end

/-! ### Arguments -/

def switches (rules : Ruleset) (config : String) (root : Option String) : List Switch :=
  [⟨"--config", some config⟩] ++
    root.toList.map (fun r => ⟨"--resolve-plugins-relative-to", some r⟩) ++
    [⟨"--format", some "json"⟩] ++ if rules.localConfig then [] else [⟨"--no-eslintrc", none⟩]

def own (rules : Ruleset) (config : String) (root : Option String) : List String :=
  (switches rules config root).flatMap Switch.words

/- Files are named by absolute paths. -/
structure Located (config : String) (root : Option String) : Prop where
  config : Path.isAbsolute config = true
  root : ∀ r, root = some r → Path.isAbsolute r = true

/- What words ask for. No other value follows an option than the one that is given for it. -/
structure Ask (rules : Ruleset) (config : String) (root : Option String) (words : List String) :
    Prop where
  unended : "--" ∉ words
  unfixing : "--fix" ∉ words
  hermetic : "--no-eslintrc" ∈ words ↔ rules.localConfig = false
  rooted : "--resolve-plugins-relative-to" ∈ words ↔ ∃ r, root = some r
  config : ∀ value, ["--config", value] <:+: words ↔ value = config
  root : ∀ value, ["--resolve-plugins-relative-to", value] <:+: words ↔ root = some value

variable {rules rules' : Ruleset} {config config' word : String} {root root' : Option String}
  {words words' paths paths' : List String}

theorem argumentsOwn (rules : Ruleset) (config : String) (root : Option String)
    (paths : List String) :
    arguments rules config root paths = own rules config root ++ "--" :: paths := by
  unfold arguments own switches
  cases root <;> cases rules.localConfig <;> rfl

theorem switchValue (located : Located config root) {s : Switch} {v : String}
    (member : s ∈ switches rules config root) (given : s.value = some v) :
    Path.isAbsolute v = true ∨ v = "json" := by
  simp only [switches, List.mem_append, List.mem_singleton, List.mem_map, Option.mem_toList]
    at member
  rcases member with ((rfl | ⟨r, rooted, rfl⟩) | rfl) | hermetic
  · cases given
    exact .inl located.config
  · cases given
    exact .inl (located.root _ rooted)
  · cases given
    exact .inr rfl
  · split at hermetic
    · contradiction
    · cases List.mem_singleton.mp hermetic
      cases given

/- No value is taken for an option. -/
theorem valueApart (located : Located config root) (relative : Path.isAbsolute word = false)
    (other : word ≠ "json") :
    ∀ s ∈ switches rules config root, ∀ v, s.value = some v → v ≠ word := by
  intro s member v given same
  subst same
  rcases switchValue located member given with absolute | json
  · rw [relative] at absolute
    contradiction
  · exact other json

theorem switchNames (rules : Ruleset) (config : String) (root : Option String) :
    (switches rules config root).map Switch.word =
      ["--config"] ++ root.toList.map (fun _ => "--resolve-plugins-relative-to") ++ ["--format"] ++
        if rules.localConfig then [] else ["--no-eslintrc"] := by
  cases root <;> cases fixed : rules.localConfig <;> simp [switches, fixed]

theorem ownMember (located : Located config root) (word : String)
    (relative : Path.isAbsolute word = false) (other : word ≠ "json") :
    word ∈ own rules config root ↔ word = "--config" ∨
      (word = "--resolve-plugins-relative-to" ∧ ∃ r, root = some r) ∨ word = "--format" ∨
        (word = "--no-eslintrc" ∧ rules.localConfig = false) := by
  rw [own, switchMember (valueApart located relative other), switchNames]
  cases root <;> simp [and_comm]

theorem ownAsks (rules : Ruleset) (located : Located config root) :
    Ask rules config root (own rules config root) := by
  constructor
  · simp [ownMember located "--" rfl (by simp)]
  · simp [ownMember located "--fix" rfl (by simp)]
  · simp [ownMember located "--no-eslintrc" rfl (by simp)]
  · simp [ownMember located "--resolve-plugins-relative-to" rfl (by simp)]
  · intro value
    rw [own, switchFollows (valueApart located rfl (by simp)) (by simp [switches])]
    simp [switches]
  · intro value
    rw [own, switchFollows (valueApart located rfl (by simp)) (by simp [switches])]
    simp [switches]

/- Words that ask for two things ask for the same. -/
theorem asksOnce (asks : Ask rules config root words) (asks' : Ask rules' config' root' words) :
    config' = config ∧ root' = root ∧ rules'.localConfig = rules.localConfig := by
  refine ⟨(asks.config config').mp ((asks'.config config').mpr rfl), ?_, ?_⟩
  · apply Option.ext
    intro value
    exact (asks'.root value).symm.trans (asks.root value)
  · have same := asks'.hermetic.symm.trans asks.hermetic
    exact Bool.eq_iff_iff.mpr (by simpa using not_congr same)

theorem beforePaths (unended : "--" ∉ words) (paths : List String) :
    (words ++ "--" :: paths).takeWhile (· ≠ "--") = words := by
  have before : ∀ word ∈ words, decide (word ≠ "--") = true := by
    intro word member
    rw [decide_eq_true_eq]
    intro same
    subst same
    exact unended member
  rw [List.takeWhile_append_of_pos before, List.takeWhile_cons_of_neg (by simp), List.append_nil]

/- The first `--` divides words in one way only. -/
theorem dividedOnce (unended : "--" ∉ words) (unended' : "--" ∉ words')
    (same : words' ++ "--" :: paths' = words ++ "--" :: paths) :
    words' = words ∧ paths' = paths := by
  have sameWords : words' = words := by
    rw [← beforePaths unended' paths', same, beforePaths unended paths]
  subst sameWords
  exact ⟨rfl, (List.cons.inj (List.append_cancel_left same)).2⟩

theorem argumentsRecovered (located : Located config root) (rules : Ruleset)
    (paths : List String) :
    (∃ words, arguments rules config root paths = words ++ "--" :: paths ∧
      Ask rules config root words) ∧
    ∀ rules' config' root' paths', Located config' root' →
      arguments rules' config' root' paths' = arguments rules config root paths →
      config' = config ∧ root' = root ∧ rules'.localConfig = rules.localConfig ∧
        paths' = paths := by
  have asks := ownAsks rules located
  refine ⟨⟨_, argumentsOwn rules config root paths, asks⟩, ?_⟩
  intro rules' config' root' paths' located' same
  have asks' := ownAsks rules' located'
  rw [argumentsOwn, argumentsOwn] at same
  obtain ⟨words, samePaths⟩ := dividedOnce asks.unended asks'.unended same
  obtain ⟨sameConfig, sameRoot, sameLocal⟩ := asksOnce asks (words ▸ asks')
  exact ⟨sameConfig, sameRoot, sameLocal, samePaths⟩

/- Names that look like options are passed on as they are. -/
theorem argumentsRecoveredSample :
    let rules := Ruleset.ofPreset .strict false
    let paths := ["--", "--fix", "-x.js", "--no-eslintrc"]
    Located "/tmp/rules.json" (some "/work") ∧
      (∃ words, arguments rules "/tmp/rules.json" (some "/work") paths = words ++ "--" :: paths ∧
        Ask rules "/tmp/rules.json" (some "/work") words) ∧
      ∀ rules' config' root' paths', Located config' root' →
        arguments rules' config' root' paths' =
          arguments rules "/tmp/rules.json" (some "/work") paths →
        config' = "/tmp/rules.json" ∧ root' = some "/work" ∧
          rules'.localConfig = rules.localConfig ∧ paths' = paths := by
  intro rules paths
  have located : Located "/tmp/rules.json" (some "/work") := by
    refine ⟨rfl, ?_⟩
    intro r given
    cases given
    rfl
  exact ⟨located, argumentsRecovered located rules paths⟩

end LintGate.Engine
