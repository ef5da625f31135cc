import Mathlib.Data.List.Nodup
import LintGate.CommandLine
import LintGate.Proofs.Stages
/-! What can be said on a command line, and in how many ways. The order of the options does not
matter, nor how each is spelt, nor where files stand between them: the same is read every time. -/
namespace LintGate

/-! ### Arguments -/

/- What one or two words say. A file is named by a word of its own. -/
inductive Argument
  | choice (c : Choice) (value : String)
  | flag (f : Flag)
  | file (path : String)
  deriving DecidableEq, Repr

namespace Argument

/- What no two options of a command line may speak of. -/
def topic? : Argument → Option (Choice ⊕ Flag)
  | choice c _ => some (.inl c)
  | flag f => some (.inr f)
  | file _ => none

def path? : Argument → Option String
  | file path => some path
  | choice _ _ | flag _ => none

def isOption (a : Argument) : Bool := a.topic?.isSome

end Argument

/- A word that is not taken for an option. -/
def Standalone (w : String) : Prop := w = "-" ∨ w.toList.head? ≠ some '-'

inductive Spelling : Argument → List String → Prop where
  | attached (c value) : Spelling (.choice c value) ["--" ++ c.name ++ "=" ++ value]
  | apart (c) {value} (alone : Standalone value) :
      Spelling (.choice c value) ["--" ++ c.name, value]
  | named (f : Flag) : Spelling (.flag f) ["--" ++ f.name]
  | letter : Spelling (.flag .verbose) ["-v"]
  | file {path} (alone : Standalone path) : Spelling (.file path) [path]

namespace CommandLine

/-! ### One argument -/

def act (i : Invocation) : Argument → Except Stop Invocation
  | .choice c value => choose i c value
  | .flag f => raise i f
  | .file path => .ok { i with files := i.files ++ [path] }

theorem longShape (name : String) : ("--" ++ name).toList = '-' :: '-' :: name.toList := by
  rw [String.toList_append]
  rfl

theorem attachedShape (name value : String) :
    ("--" ++ name ++ "=" ++ value).toList = '-' :: '-' :: (name.toList ++ '=' :: value.toList) := by
  rw [String.toList_append, String.toList_append, longShape]
  simp

theorem wordsNext {s s' : State} {w : String} (other : w ≠ "--") (read : word s w = .ok s')
    (rest : List String) : words s (w :: rest) = words s' rest := by
  rw [words, if_neg other, read]
  rfl

theorem wholePassed {name : List Char} (whole : '=' ∉ name) :
    ∀ c ∈ name, decide (c ≠ '=') = true := by
  intro c member
  refine decide_eq_true ?_
  rintro rfl
  exact whole member

theorem splitAttached {name : List Char} (whole : '=' ∉ name) (value : List Char) :
    splitEquals (name ++ '=' :: value) = (String.ofList name, some (String.ofList value)) := by
  have before := wholePassed whole
  rw [splitEquals, List.takeWhile_append_of_pos before, List.dropWhile_append_of_pos before]
  simp

theorem splitName {name : List Char} (whole : '=' ∉ name) :
    splitEquals name = (String.ofList name, none) := by
  have before := wholePassed whole
  have split : (name ++ []).takeWhile (· ≠ '=') = _ := List.takeWhile_append_of_pos before
  have left : (name ++ []).dropWhile (· ≠ '=') = _ := List.dropWhile_append_of_pos before
  rw [List.append_nil] at split left
  rw [splitEquals, split, left]
  simp

theorem choiceName (c : Choice) : Choice.ofName? c.name = some c ∧ '=' ∉ c.name.toList := by
  cases c <;> decide

theorem flagName (f : Flag) :
    Choice.ofName? f.name = none ∧ Flag.ofName? f.name = some f ∧ '=' ∉ f.name.toList := by
  cases f <;> decide

theorem longAttached (s : State) (c : Choice) (value : String) :
    long s (c.name.toList ++ '=' :: value.toList) = s.option c (some value) := by
  obtain ⟨known, whole⟩ := choiceName c
  rw [long, splitAttached whole, String.ofList_toList, String.ofList_toList]
  simp only [known]

theorem longChoice (s : State) (c : Choice) : long s c.name.toList = s.option c none := by
  obtain ⟨known, whole⟩ := choiceName c
  rw [long, splitName whole, String.ofList_toList]
  simp only [known]

theorem longFlag (s : State) (f : Flag) : long s f.name.toList = s.flag f := by
  obtain ⟨other, known, whole⟩ := flagName f
  rw [long, splitName whole, String.ofList_toList]
  simp only [other, known]

theorem longWord (s : State) (name : String) :
    word s ("--" ++ name) = long s name.toList := by
  rw [word, longShape]
  rfl

theorem attachedWord (s : State) (name value : String) :
    word s ("--" ++ name ++ "=" ++ value) = long s (name.toList ++ '=' :: value.toList) := by
  rw [word, attachedShape]
  rfl

theorem aloneWord (s : State) {w : String} (alone : Standalone w) : word s w = s.value w := by
  have shape : ∀ c cs, w.toList ≠ '-' :: c :: cs := by
    intro c cs same
    rcases alone with rfl | other
    · have dash : "-".toList = ['-'] := rfl
      rw [dash] at same
      cases same
    · exact other (by rw [same]; rfl)
  unfold word
  split
  · exact absurd ‹_› (shape _ _)
  · exact absurd ‹_› (shape _ _)
  · rfl

/- Behind the words the reading goes on from a state in which so much has been said. -/
def Leads (s : State) (ws : List String) (i : Invocation) : Prop :=
  ∃ s', (∀ rest, words s (ws ++ rest) = words s' rest) ∧ s'.settle = .ok i

variable {s : State} {i j : Invocation}

theorem oneLeads {w : String} (other : w ≠ "--") (read : word s w = .ok ⟨i, none⟩) :
    Leads s [w] i :=
  ⟨⟨i, none⟩, wordsNext other read, rfl⟩

theorem attachedOther (c : Choice) (value : String) : "--" ++ c.name ++ "=" ++ value ≠ "--" := by
  intro same
  have lengths := congrArg String.length same
  have mark : "=".length = 1 := rfl
  simp only [String.length_append] at lengths
  omega

theorem nameOther {name : String} (filled : name ≠ "") : "--" ++ name ≠ "--" := by
  intro same
  refine filled ((String.append_right_inj "--").mp ?_)
  rw [same, String.append_empty]

theorem aloneOther {w : String} (alone : Standalone w) : w ≠ "--" := by
  rintro rfl
  rcases alone with same | other
  · contradiction
  · exact other rfl

/- The value may stand in the word of the option or in the next one, which makes it pending. -/
theorem choiceLeads {c : Choice} {value : String} {ws : List String} (settled : s.settle = .ok i)
    (spelling : Spelling (.choice c value) ws) (chosen : choose i c value = .ok j) :
    Leads s ws j := by
  have named : c.name ≠ "" := by cases c <;> decide
  cases spelling with
  | attached =>
    refine oneLeads (attachedOther c value) ?_
    rw [attachedWord, longAttached, State.option, settled]
    show (choose i c value >>= fun i => pure (⟨i, none⟩ : State)) = _
    rw [chosen]
    rfl
  | apart _ alone =>
    refine ⟨⟨i, some (c, some value)⟩, fun rest => ?_, chosen⟩
    have first : word s ("--" ++ c.name) = .ok ⟨i, some (c, none)⟩ := by
      rw [longWord, longChoice, State.option, settled]
      rfl
    have second : word ⟨i, some (c, none)⟩ value = .ok ⟨i, some (c, some value)⟩ := by
      rw [aloneWord _ alone]
      rfl
    show words s (("--" ++ c.name) :: value :: rest) = _
    rw [wordsNext (nameOther named) first, wordsNext (aloneOther alone) second]

theorem flagLeads {f : Flag} {ws : List String} (settled : s.settle = .ok i)
    (spelling : Spelling (.flag f) ws) (raised : raise i f = .ok j) : Leads s ws j := by
  have flagged : s.flag f = .ok ⟨j, none⟩ := by
    rw [State.flag, settled]
    show (raise i f >>= fun i => pure (⟨i, none⟩ : State)) = _
    rw [raised]
    rfl
  cases spelling with
  | named =>
    have named : f.name ≠ "" := by cases f <;> decide
    refine oneLeads (nameOther named) ?_
    rw [longWord, longFlag, flagged]
  | letter =>
    refine oneLeads (by decide) ?_
    have shape : "-v".toList = ['-', 'v'] := rfl
    have known : letter s 'v' = s.flag .verbose := rfl
    rw [word, shape]
    show ['v'].foldlM letter s = _
    rw [List.foldlM_cons, known, flagged]
    rfl

theorem fileRead (settled : s.settle = .ok i) (path : String) :
    s.file path = .ok ⟨{ i with files := i.files ++ [path] }, none⟩ := by
  rw [State.file, settled]
  rfl

/- A word that could be a value is one only where an option waits for it. -/
theorem fileLeads {path : String} {ws : List String} (settled : s.settle = .ok i)
    (spelling : Spelling (.file path) ws) :
    Leads s ws { i with files := i.files ++ [path] } := by
  cases spelling with
  | file alone =>
    refine oneLeads (aloneOther alone) ?_
    have given : s.value path = s.file path := by
      unfold State.value
      split
      · rename_i waiting
        rw [State.settle, waiting] at settled
        contradiction
      · rfl
    rw [aloneWord s alone, given, fileRead settled]

theorem argumentLeads {a : Argument} {ws : List String} (settled : s.settle = .ok i)
    (spelling : Spelling a ws) (acted : act i a = .ok j) : Leads s ws j := by
  cases a with
  | choice c value => exact choiceLeads settled spelling acted
  | flag f => exact flagLeads settled spelling acted
  | file path =>
    cases acted
    exact fileLeads settled spelling

/-! ### All arguments -/

theorem argumentsLead {as : List Argument} {ws : List (List String)}
    (settled : s.settle = .ok i) (spellings : List.Forall₂ Spelling as ws)
    (acted : as.foldlM act i = .ok j) : Leads s ws.flatten j := by
  induction spellings generalizing s i with
  | nil =>
    cases acted
    exact ⟨s, fun rest => rfl, settled⟩
  | cons spelling _ ih =>
    rw [List.foldlM_cons] at acted
    obtain ⟨next, first, acted⟩ := bindOk acted
    obtain ⟨s', reads, settled⟩ := argumentLeads settled spelling first
    obtain ⟨s'', readsOn, settled⟩ := ih settled acted
    refine ⟨s'', fun rest => ?_, settled⟩
    rw [List.flatten_cons, List.append_assoc, reads, readsOn]

theorem filesRead {files : List String} (settled : s.settle = .ok i) :
    (do (← files.foldlM State.file s).settle) = .ok { i with files := i.files ++ files } := by
  induction files generalizing s i with
  | nil =>
    show s.settle = _
    rw [settled, List.append_nil]
  | cons path files ih =>
    rw [List.foldlM_cons, fileRead settled]
    have rest := ih (s := ⟨{ i with files := i.files ++ [path] }, none⟩) rfl
    rw [List.append_assoc, List.singleton_append] at rest
    exact rest

/-! ### What has been said -/

/- The arguments say this and nothing else, in whatever order they stand. -/
structure Said (as : List Argument) (i : Invocation) : Prop where
  chosen : ∀ c value, chosen i.options c = some value ↔ .choice c value ∈ as
  strict : i.options.strict = if .flag .strict ∈ as then some true else none
  localConfig : i.options.localConfig = if .flag .localConfig ∈ as then some true else none
  verbose : i.verbose = decide (.flag .verbose ∈ as)
  files : i.files = as.filterMap Argument.path?

/- An argument with which a run can start. -/
def Starts : Argument → Prop
  | .choice .config value => value ≠ ""
  | .flag f => f ≠ .help ∧ f ≠ .version
  | .choice _ _ | .file _ => True

variable {as bs : List Argument} {a : Argument}

theorem choiceStored (o : Options) (value : String) (c other : Choice) :
    chosen (withChoice o value c) other = if other = c then some value else chosen o other := by
  cases c <;> cases other <;> rfl

theorem choiceKeeps (o : Options) (value : String) (c : Choice) :
    (withChoice o value c).strict = o.strict ∧
      (withChoice o value c).localConfig = o.localConfig := by
  cases c <;> exact ⟨rfl, rfl⟩

theorem saidChoice {c : Choice} {value : String} (said : Said as i)
    (fresh : ∀ other, .choice c other ∉ as) (starts : Starts (.choice c value)) :
    ∃ j, act i (.choice c value) = .ok j ∧ Said (as ++ [.choice c value]) j := by
  have open_ : (chosen i.options c).isSome = false := by
    cases found : chosen i.options c with
    | none => rfl
    | some other => exact absurd ((said.chosen c other).mp found) (fresh other)
  have named : ¬ (c = .config ∧ value = "") := by
    rintro ⟨rfl, rfl⟩
    exact starts rfl
  refine ⟨_, by rw [act, choose, open_, if_neg Bool.false_ne_true, if_neg named], ?_⟩
  obtain ⟨strict, localConfig⟩ := choiceKeeps i.options value c
  refine ⟨fun other stated => ?_, ?_, ?_, ?_, ?_⟩
  · simp only [choiceStored, List.mem_append, List.mem_singleton, Argument.choice.injEq]
    split
    · rename_i same
      subst other
      simp [fresh, eq_comm]
    · rename_i different
      simp [said.chosen, different]
  · simp [strict, said.strict]
  · simp [localConfig, said.localConfig]
  · simp [said.verbose]
  · simp [said.files, Argument.path?]

theorem saidFlag {f : Flag} (said : Said as i) (fresh : .flag f ∉ as) (starts : Starts (.flag f)) :
    ∃ j, act i (.flag f) = .ok j ∧ Said (as ++ [.flag f]) j := by
  have kept : ∀ c value, CommandLine.chosen i.options c = some value ↔
      .choice c value ∈ as ++ [.flag f] := by
    intro c value
    simp [said.chosen]
  have files : i.files = (as ++ [Argument.flag f]).filterMap Argument.path? := by
    simp [said.files, Argument.path?]
  cases f with
  | help => exact absurd rfl starts.1
  | version => exact absurd rfl starts.2
  | strict =>
    have unset : i.options.strict = none := by rw [said.strict, if_neg fresh]
    let next := { i with options := { i.options with strict := some true } }
    refine ⟨next, by rw [act, raise, unset]; rfl, fun c value => ?_, ?_, ?_, ?_, files⟩
    · exact Iff.trans (by cases c <;> rfl) (kept c value)
    · simp [next]
    · simp [next, said.localConfig]
    · simp [next, said.verbose]
  | localConfig =>
    have unset : i.options.localConfig = none := by rw [said.localConfig, if_neg fresh]
    let next := { i with options := { i.options with localConfig := some true } }
    refine ⟨next, by rw [act, raise, unset]; rfl, fun c value => ?_, ?_, ?_, ?_, files⟩
    · exact Iff.trans (by cases c <;> rfl) (kept c value)
    · simp [next, said.strict]
    · simp [next]
    · simp [next, said.verbose]
  | verbose =>
    have unset : i.verbose = false := by rw [said.verbose, decide_eq_false fresh]
    refine ⟨{ i with verbose := true }, by rw [act, raise, unset]; rfl, kept, ?_, ?_, ?_, files⟩
    · simp [said.strict]
    · simp [said.localConfig]
    · simp

theorem saidFile (said : Said as i) (path : String) :
    Said (as ++ [.file path]) { i with files := i.files ++ [path] } := by
  refine ⟨fun c value => ?_, ?_, ?_, ?_, ?_⟩
  · simp [said.chosen]
  · simp [said.strict]
  · simp [said.localConfig]
  · simp [said.verbose]
  · simp [said.files, Argument.path?]

theorem saidFiles (said : Said as i) (paths : List String) :
    Said (as ++ paths.map .file) { i with files := i.files ++ paths } := by
  induction paths generalizing as i with
  | nil => simpa using said
  | cons path paths ih => simpa using ih (saidFile said path)

theorem saidNext (said : Said as i)
    (fresh : ∀ t, a.topic? = some t → t ∉ as.filterMap Argument.topic?) (starts : Starts a) :
    ∃ j, act i a = .ok j ∧ Said (as ++ [a]) j := by
  cases a with
  | choice c value =>
    refine saidChoice said (fun other member => ?_) starts
    exact fresh _ rfl (List.mem_filterMap.mpr ⟨_, member, rfl⟩)
  | flag f =>
    refine saidFlag said (fun member => ?_) starts
    exact fresh _ rfl (List.mem_filterMap.mpr ⟨_, member, rfl⟩)
  | file path => exact ⟨_, rfl, saidFile said path⟩

theorem saidAll (said : Said as i) (apart : ((as ++ bs).filterMap Argument.topic?).Nodup)
    (starts : ∀ b ∈ bs, Starts b) : ∃ j, bs.foldlM act i = .ok j ∧ Said (as ++ bs) j := by
  induction bs generalizing as i with
  | nil => exact ⟨i, rfl, by rwa [List.append_nil]⟩
  | cons b bs ih =>
    have fresh : ∀ t, b.topic? = some t → t ∉ as.filterMap Argument.topic? := by
      intro t topic member
      rw [List.filterMap_append, List.filterMap_cons_some topic] at apart
      exact (List.nodup_append.mp apart).2.2 t member t List.mem_cons_self rfl
    obtain ⟨next, acted, said⟩ := saidNext said fresh (starts b List.mem_cons_self)
    have whole : as ++ b :: bs = as ++ [b] ++ bs := by simp
    rw [whole] at apart ⊢
    obtain ⟨j, rest, said⟩ := ih said apart fun c member => starts c (List.mem_cons_of_mem b member)
    refine ⟨j, ?_, said⟩
    rw [List.foldlM_cons, acted]
    exact rest

theorem saidSame (said : Said as i) (other : Said bs j)
    (options : ∀ a, a.isOption = true → (a ∈ as ↔ a ∈ bs))
    (files : as.filterMap Argument.path? = bs.filterMap Argument.path?) : i = j := by
  have choices : ∀ c, chosen i.options c = chosen j.options c := by
    intro c
    refine Option.ext fun value => ?_
    rw [said.chosen, other.chosen]
    exact options _ rfl
  have format := choices .format
  have preset := choices .preset
  have engine := choices .engine
  have config := choices .config
  have strict : i.options.strict = j.options.strict := by
    rw [said.strict, other.strict]
    simp only [options (.flag .strict) rfl]
  have localConfig : i.options.localConfig = j.options.localConfig := by
    rw [said.localConfig, other.localConfig]
    simp only [options (.flag .localConfig) rfl]
  have verbose : i.verbose = j.verbose := by
    rw [said.verbose, other.verbose]
    simp only [options (.flag .verbose) rfl]
  have named : i.files = j.files := by rw [said.files, other.files, files]
  obtain ⟨_, ⟨_, _, _, _, _, _⟩, _⟩ := i
  obtain ⟨_, ⟨_, _, _, _, _, _⟩, _⟩ := j
  simp_all [chosen]

end CommandLine

/-! ### Requests -/

structure Request where
  files : List String
  format : Option String
  preset : Option String
  engine : Option String
  config : Option String
  strict : Bool
  localConfig : Bool
  verbose : Bool
  deriving DecidableEq, Repr

namespace Request
open CommandLine (Said Starts)

def chosen (r : Request) : Choice → Option String
  | .format => r.format
  | .preset => r.preset
  | .engine => r.engine
  | .config => r.config

def raised (r : Request) : Flag → Bool
  | .strict => r.strict
  | .localConfig => r.localConfig
  | .verbose => r.verbose
  | .help | .version => false

def given (b : Bool) : Option Bool := if b then some true else none

def invocation (r : Request) : Invocation where
  files := r.files
  options := ⟨r.config, r.format, given r.strict, r.preset, given r.localConfig, r.engine⟩
  verbose := r.verbose

def options (r : Request) : List Argument :=
  Choice.all.filterMap (fun c => (r.chosen c).map (.choice c)) ++
    (Flag.all.filter r.raised).map .flag

/- Some of the files stand anywhere between the options, and the others come behind all words. -/
structure Arranged (r : Request) (as : List Argument) (behind : List String) : Prop where
  options : (as.filter Argument.isOption).Perm r.options
  files : as.filterMap Argument.path? ++ behind = r.files

variable {r : Request} {as : List Argument} {behind : List String}

theorem everyChoice (c : Choice) : c ∈ Choice.all := by cases c <;> decide

theorem everyFlag (f : Flag) : f ∈ Flag.all := by cases f <;> decide

theorem choiceListed {c : Choice} {value : String} :
    .choice c value ∈ r.options ↔ r.chosen c = some value := by
  rw [options, List.mem_append, List.mem_filterMap]
  constructor
  · rintro (⟨other, _, stated⟩ | flag)
    · obtain ⟨_, found, same⟩ := Option.map_eq_some_iff.mp stated
      cases same
      exact found
    · simp at flag
  · intro found
    exact .inl ⟨c, everyChoice c, by rw [found]; rfl⟩

theorem flagListed {f : Flag} : .flag f ∈ r.options ↔ r.raised f = true := by
  simp [options, everyFlag]

theorem optionsOnly : ∀ a ∈ r.options, a.isOption = true := by
  intro a member
  rcases List.mem_append.mp member with choice | flag
  · obtain ⟨c, _, stated⟩ := List.mem_filterMap.mp choice
    obtain ⟨_, _, rfl⟩ := Option.map_eq_some_iff.mp stated
    rfl
  · obtain ⟨f, _, rfl⟩ := List.mem_map.mp flag
    rfl

theorem topicsApart (r : Request) : (r.options.filterMap Argument.topic?).Nodup := by
  have choices : (Choice.all.filterMap fun c => (r.chosen c).map (Argument.choice c)).filterMap
      Argument.topic? = Choice.all.filterMap fun c => (r.chosen c).map fun _ => .inl c := by
    rw [List.filterMap_filterMap]
    refine List.filterMap_congr fun c _ => ?_
    cases r.chosen c <;> rfl
  have flags : ((Flag.all.filter r.raised).map Argument.flag).filterMap Argument.topic? =
      (Flag.all.filter r.raised).map .inr := by
    simp [List.filterMap_map, Function.comp_def, Argument.topic?]
  rw [options, List.filterMap_append, choices, flags, List.nodup_append]
  refine ⟨?_, ?_, ?_⟩
  · refine List.Nodup.filterMap ?_ (by decide)
    intro c d t first second
    obtain ⟨_, _, rfl⟩ := Option.map_eq_some_iff.mp first
    obtain ⟨_, _, same⟩ := Option.map_eq_some_iff.mp second
    exact (Sum.inl.inj same).symm
  · have all : Flag.all.Nodup := by decide
    exact (all.filter _).map fun _ _ => Sum.inr.inj
  · intro t first u second
    obtain ⟨c, _, stated⟩ := List.mem_filterMap.mp first
    obtain ⟨_, _, rfl⟩ := Option.map_eq_some_iff.mp stated
    obtain ⟨f, _, rfl⟩ := List.mem_map.mp second
    exact Sum.inl_ne_inr

theorem invocationSaid (r : Request) : Said (r.options ++ r.files.map .file) r.invocation := by
  refine ⟨fun c value => ?_, ?_, ?_, ?_, ?_⟩
  · rw [List.mem_append, choiceListed]
    cases c <;> simp [CommandLine.chosen, invocation, chosen]
  · simp [flagListed, invocation, raised, given]
  · simp [flagListed, invocation, raised, given]
  · simp [flagListed, invocation, raised]
  · have none : r.options.filterMap Argument.path? = [] := by
      rw [List.filterMap_eq_nil_iff]
      intro a member
      have option := optionsOnly a member
      cases a with
      | file => contradiction
      | _ => rfl
    simp [none, invocation, List.filterMap_map, Function.comp_def, Argument.path?]

theorem arrangedMember (arranged : r.Arranged as behind) {a : Argument}
    (option : a.isOption = true) : a ∈ as ↔ a ∈ r.options := by
  rw [← arranged.options.mem_iff, List.mem_filter]
  exact ⟨fun member => ⟨member, option⟩, And.left⟩

/- Only options have topics, so the files between them do not matter. -/
theorem arrangedApart (arranged : r.Arranged as behind) :
    (as.filterMap Argument.topic?).Nodup := by
  have kept : as.filterMap Argument.topic? =
      (as.filter Argument.isOption).filterMap Argument.topic? := by
    rw [List.filterMap_filter]
    refine List.filterMap_congr fun a _ => ?_
    cases a <;> rfl
  rw [kept]
  exact (arranged.options.filterMap _).nodup_iff.mpr (topicsApart r)

theorem arrangedStarts (named : r.config ≠ some "") (arranged : r.Arranged as behind) :
    ∀ a ∈ as, Starts a := by
  intro a member
  cases a with
  | file path => trivial
  | flag f =>
    have raised := flagListed.mp ((arrangedMember arranged rfl).mp member)
    constructor
    · rintro rfl
      contradiction
    · rintro rfl
      contradiction
  | choice c value =>
    have stated := choiceListed.mp ((arrangedMember arranged rfl).mp member)
    cases c with
    | config =>
      rintro rfl
      exact named stated
    | _ => trivial

/- The files behind the words are said last. -/
theorem arrangedSaid {i : Invocation} (arranged : r.Arranged as behind) (said : Said as i) :
    { i with files := i.files ++ behind } = r.invocation := by
  have whole := CommandLine.saidFiles said behind
  refine CommandLine.saidSame whole (invocationSaid r) (fun a option => ?_) ?_
  · have named : ∀ paths : List String, a ∉ paths.map Argument.file := by
      intro paths member
      obtain ⟨_, _, rfl⟩ := List.mem_map.mp member
      contradiction
    simp only [List.mem_append, named, or_false]
    exact arrangedMember arranged option
  · rw [← whole.files, ← (invocationSaid r).files, said.files]
    exact arranged.files

theorem arrangedRead (r : Request) (named : r.config ≠ some "") {as : List Argument}
    {behind : List String} {words : List (List String)} (arranged : r.Arranged as behind)
    (spelt : List.Forall₂ Spelling as words) :
    CommandLine.read (words.flatten ++ "--" :: behind) = .ok r.invocation := by
  have nothing : Said [] CommandLine.State.start.read := by
    refine ⟨fun c value => ?_, rfl, rfl, rfl, rfl⟩
    cases c <;> simp [CommandLine.State.start, CommandLine.chosen, Options.empty]
  obtain ⟨i, acted, said⟩ := CommandLine.saidAll nothing (arrangedApart arranged)
    (arrangedStarts named arranged)
  obtain ⟨s, reads, settled⟩ :=
    CommandLine.argumentsLead (s := .start) (i := CommandLine.State.start.read) rfl spelt acted
  rw [CommandLine.read, reads, CommandLine.words, if_pos rfl, CommandLine.filesRead settled,
    arrangedSaid arranged said]

/- A dash and an empty value in words of their own, an equals sign within a value, a file between
the options and one behind them that is named like an option. -/
theorem arrangedReadSample :
    CommandLine.read ["-v", "--format", "-", "a.js", "--preset", "", "--config=-=", "--strict",
        "--", "--fix"] =
      .ok ⟨["a.js", "--fix"], ⟨some "-=", some "-", some true, some "", none, none⟩, true⟩ := by
  let r : Request := ⟨["a.js", "--fix"], some "-", some "", none, some "-=", true, false, true⟩
  have arranged : r.Arranged [.flag .verbose, .choice .format "-", .file "a.js",
      .choice .preset "", .choice .config "-=", .flag .strict] ["--fix"] := ⟨by decide, rfl⟩
  exact arrangedRead r (by decide) arranged
    (.cons .letter (.cons (.apart .format (.inl rfl)) (.cons (.file (.inr (by decide)))
      (.cons (.apart .preset (.inr (by decide))) (.cons (.attached .config "-=")
        (.cons (.named .strict) .nil))))))

end Request
end LintGate
