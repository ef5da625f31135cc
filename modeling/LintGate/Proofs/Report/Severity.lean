import LintGate.Proofs.Json.Soundness
import LintGate.Proofs.Report.Native
/-! All or nothing: a report is accepted as a whole if each of its messages has a severity, and is
otherwise refused for the first that has none. Whether the text has the form of a report is settled
before any of them is looked at. -/
namespace LintGate.Report.Native
open LintGate.Json (Value)
open LintGate.Json.Grammar (Spells)

/-! ### Form -/

/- The text spells an array, with a record in it for each of the files. -/
def Formed (s : String) (files : List File) : Prop :=
  ∃ vs, Spells (.spaced (.array vs)) (Text.trim s).toList ∧
    List.Forall₂ (fun f v => file? v = some f) files vs

theorem rowsGiven {α : Type} {read : Value → Option α} {vs : List Value} {xs : List α}
    (h : vs.mapM read = some xs) : List.Forall₂ (fun x v => read v = some x) xs vs := by
  induction vs generalizing xs with
  | nil =>
    cases h
    exact .nil
  | cons v vs ih =>
    rw [List.mapM_cons] at h
    obtain ⟨x, first, h⟩ := Option.bind_eq_some_iff.mp h
    obtain ⟨ys, rest, whole⟩ := Option.bind_eq_some_iff.mp h
    cases whole
    exact .cons first (ih rest)

theorem formedFiles {s : String} {files : List File} :
    files? s = some files ↔ Formed s files := by
  constructor
  · intro form
    obtain ⟨v, read, rows⟩ := Option.bind_eq_some_iff.mp form
    cases v with
    | array vs => exact ⟨vs, Value.readSpells.mp read, rowsGiven rows⟩
    | null | boolean | number | text | illFormed | object => cases rows
  · rintro ⟨vs, spells, rows⟩
    exact Option.bind_eq_some_iff.mpr ⟨.array vs, Value.readSpells.mpr spells,
      rowsRead rows fun _ _ _ record => record⟩

/-! ### Severities -/

/- A message has a severity if it is fatal or if its level is one of the two. -/
def Message.Rated (m : Message) : Prop := m.fatal = true ∨ m.level = 1 ∨ m.level = 2

def Message.rating (m : Message) : Severity :=
  if m.fatal = true ∨ m.level = 2 then .error else .warning

def Message.meant (m : Message) : Finding :=
  ⟨m.line, m.column, m.rating, m.text, m.rule, m.fatal⟩

def File.meant (f : File) : FileReport :=
  ⟨f.path, f.errors, f.warnings, f.messages.map Message.meant⟩

theorem ratedMeant {m : Message} (rated : m.Rated) : m.finding = .ok m.meant := by
  have severity : m.severity = .ok m.rating := by
    unfold Message.severity Message.rating
    split
    · rfl
    · rename_i mild
      have warns : m.level = 1 := by
        rcases rated with fatal | warns | errs
        · exact absurd (.inl fatal) mild
        · exact warns
        · exact absurd (.inr errs) mild
      rw [if_pos warns]
  unfold Message.finding
  rw [severity]
  rfl

theorem unratedRefused {m : Message} (unrated : ¬ m.Rated) :
    m.finding = .error (.severity m.level) := by
  have severity : m.severity = .error (.severity m.level) := by
    unfold Message.severity
    rw [if_neg fun h => unrated (h.imp_right .inr), if_neg fun h => unrated (.inr (.inl h))]
  unfold Message.finding
  rw [severity]
  rfl

theorem findingOk {m : Message} {x : Finding} (meant : m.finding = .ok x) : m.Rated := by
  by_contra unrated
  rw [unratedRefused unrated] at meant
  cases meant

theorem fileOk {f : File} (rated : ∀ m ∈ f.messages, m.Rated) : f.report = .ok f.meant := by
  have findings : (f.messages.map id).mapM Message.finding =
      .ok (f.messages.map Message.meant) :=
    elementsGive fun m member => ratedMeant (rated m member)
  rw [List.map_id] at findings
  unfold File.report
  rw [findings]
  rfl

theorem fileRated {f : File} {g : FileReport} (meant : f.report = .ok g) :
    ∀ m ∈ f.messages, m.Rated := by
  obtain ⟨findings, meanings, _⟩ := bindOk meant
  intro m member
  obtain ⟨x, given⟩ := mapMEach meanings m member
  exact findingOk given

/- The message for which a file is refused is the first that has no severity. -/
theorem fileRefused {f : File} {d : Defect} (refused : f.report = .error d) :
    ∃ before m after, f.messages = before ++ m :: after ∧ (∀ x ∈ before, x.Rated) ∧ ¬ m.Rated ∧
      d = .severity m.level := by
  rcases bindError refused with unmeant | ⟨_, _, none⟩
  · obtain ⟨before, m, after, split, ⟨xs, done⟩, last⟩ := mapMError unmeant
    have unrated : ¬ m.Rated := by
      intro rated
      rw [ratedMeant rated] at last
      cases last
    rw [unratedRefused unrated] at last
    cases last
    refine ⟨before, m, after, split, ?_, unrated, rfl⟩
    intro x member
    obtain ⟨y, given⟩ := mapMEach done x member
    exact findingOk given
  · cases none

/-! ### Reports -/

variable {files : List File}

def AllRated (files : List File) : Prop := ∀ f ∈ files, ∀ m ∈ f.messages, m.Rated

theorem filesOk (rated : AllRated files) : files.mapM File.report = .ok (files.map File.meant) := by
  have reports : (files.map id).mapM File.report = .ok (files.map File.meant) :=
    elementsGive fun f member => fileOk (rated f member)
  rwa [List.map_id] at reports

theorem filesRated {r : Report} (meant : files.mapM File.report = .ok r) : AllRated files := by
  intro f member
  obtain ⟨g, given⟩ := mapMEach meant f member
  exact fileRated given

theorem filesRefused {d : Defect} (refused : files.mapM File.report = .error d) :
    ∃ before m after, files.flatMap File.messages = before ++ m :: after ∧
      (∀ x ∈ before, x.Rated) ∧ ¬ m.Rated ∧ d = .severity m.level := by
  obtain ⟨first, f, last, rfl, ⟨r, done⟩, failed⟩ := mapMError refused
  obtain ⟨before, m, after, split, rated, unrated, same⟩ := fileRefused failed
  refine ⟨first.flatMap File.messages ++ before, m, after ++ last.flatMap File.messages, ?_, ?_,
    unrated, same⟩
  · simp [split]
  · refine List.forall_mem_append.mpr ⟨?_, rated⟩
    intro x member
    obtain ⟨g, there, inside⟩ := List.mem_flatMap.mp member
    exact filesRated done g there x inside

/- How a report of these files is taken: as what it means if all its messages have a severity, and
else with the level of the first that has none. -/
structure Judged (s : String) (files : List File) : Prop where
  accepted : ∀ r, read s = .ok r ↔ AllRated files ∧ r = files.map File.meant
  refused : ¬ AllRated files →
    ∃ before m after, files.flatMap File.messages = before ++ m :: after ∧
      (∀ x ∈ before, x.Rated) ∧ ¬ m.Rated ∧ read s = .error (.severity m.level) ∧
      (Defect.severity m.level).message = "unexpected message severity " ++ Text.decimal m.level

theorem formedJudged {s : String} (formed : Formed s files) : Judged s files := by
  have meaning := readFiles (formedFiles.mpr formed)
  constructor
  · intro r
    rw [meaning]
    constructor
    · intro accepted
      have rated := filesRated accepted
      rw [filesOk rated] at accepted
      cases accepted
      exact ⟨rated, rfl⟩
    · rintro ⟨rated, rfl⟩
      exact filesOk rated
  · intro unrated
    cases taken : files.mapM File.report with
    | ok r => exact absurd (filesRated taken) unrated
    | error d =>
      obtain ⟨before, m, after, split, rated, first, rfl⟩ := filesRefused taken
      exact ⟨before, m, after, split, rated, first, meaning.trans taken, rfl⟩

theorem severityLaw (s : String) :
    (∀ files, Formed s files → Judged s files) ∧
      ((∀ files, ¬ Formed s files) →
        read s = .error .malformed ∧ ∀ level, read s ≠ .error (.severity level)) := by
  refine ⟨fun files => formedJudged, ?_⟩
  intro unformed
  have form : files? s = none := by
    cases form : files? s with
    | none => rfl
    | some files => exact absurd (formedFiles.mp form) (unformed files)
  rw [readMalformed form]
  exact ⟨rfl, fun level => by simp⟩

/- What is wrong behind a message without a severity comes first all the same. -/
example : read ("[\x7b\"filePath\":\"a\",\"messages\":[" ++
    "\x7b\"severity\":7,\"message\":\"\"\x7d]\x7d,0]") = .error .malformed := by decide +kernel

end LintGate.Report.Native
