import LintGate.Proofs.Path.Displayed
import LintGate.Report.Style
import Mathlib.Data.List.Forall2
/-! The name under which a report shows a file. A file below the working directory goes by the way
down to it and every other one by its own text. The directory itself is not below itself, but the
way to it is shown all the same: it is empty, and nothing names such a file. -/
namespace LintGate
namespace Path

/- The way leads from the directory down to the file. -/
structure Below (directory file : String) (way : List String) : Prop where
  absolute : isAbsolute file = true
  whole : components file = components directory ++ way
  further : way ≠ []
  down : way.head? ≠ some ".."

/- The file is the directory, however that is spelt. -/
def Itself (directory file : String) : Prop :=
  isAbsolute file = true ∧ components file = components directory

instance (directory file : String) : Decidable (Itself directory file) := by
  unfold Itself; infer_instance

/- The file is shortened where it lies below the directory, and nowhere else. -/
structure ShownBelow (directory file : String) : Prop where
  below : ∀ way, Below directory file way → shown directory file = join way
  elsewhere : (∀ way, ¬ Below directory file way) → shown directory file = file
  filled : file ≠ "" → shown directory file ≠ ""

/- The text is there to be seen, and is the file itself or leads to it. -/
structure Identifies (directory file text : String) : Prop where
  filled : text ≠ ""
  stands : text = file ∨ ∃ way, Below directory file way ∧ text = join way

variable {directory file : String} {way : List String}

theorem joinFilled (names : ∀ part ∈ way, Names part) (further : way ≠ []) : join way ≠ "" := by
  intro empty
  have parts := componentsJoin names
  rw [empty] at parts
  exact further parts.symm

theorem belowShown (below : Below directory file way) : shown directory file = join way := by
  rw [shownBeyond below.absolute, below.whole, beyondAppend, along, if_neg below.down]

theorem belowFilled (below : Below directory file way) : join way ≠ "" := by
  refine joinFilled (fun part member => ?_) below.further
  have component : part ∈ components file := by
    rw [below.whole]
    exact List.mem_append_right _ member
  exact componentNames part component

theorem absoluteFilled (absolute : isAbsolute file = true) : file ≠ "" := by
  rintro rfl
  contradiction

theorem itselfShown (itself : Itself directory file) : shown directory file = "" := by
  have whole : components file = components directory ++ [] := by
    rw [itself.2, List.append_nil]
  rw [shownBeyond itself.1, whole, beyondAppend]
  rfl

theorem changedBelow (apart : ¬ Itself directory file) (changed : shown directory file ≠ file) :
    Below directory file (components (shown directory file)) := by
  have absolute : isAbsolute file = true := by
    rw [← Bool.not_eq_false]
    exact fun relative => changed (relativeShown relative)
  have leads := shownLeads changed
  refine ⟨absolute, leads.whole.symm, fun none => apart ⟨absolute, ?_⟩, leads.below⟩
  rw [← leads.whole, none, List.append_nil]

theorem identifiesShown (apart : ¬ Itself directory file) (named : file ≠ "") :
    Identifies directory file (shown directory file) := by
  by_cases same : shown directory file = file
  · exact ⟨by rwa [same], .inl same⟩
  · have below := changedBelow apart same
    have shorter := belowShown below
    exact ⟨shorter ▸ belowFilled below, .inr ⟨_, below, shorter⟩⟩

theorem shownBelowApart : ShownBelow directory file ↔ ¬ Itself directory file := by
  constructor
  · intro shownBelow itself
    exact shownBelow.filled (absoluteFilled itself.1) (itselfShown itself)
  · intro apart
    refine ⟨fun way => belowShown, fun above => ?_, fun named => (identifiesShown apart named).filled⟩
    by_contra changed
    exact above _ (changedBelow apart changed)

end Path

namespace Report
open LintGate.Path (Itself ShownBelow Identifies identifiesShown)

/-! ### Headers and rows -/

/- For each file its lines, which begin with a header that names it. -/
def Headed (directory : String) (lead : List String) (ink : String → String) (r : Report)
    (blocks : List (List String)) : Prop :=
  List.Forall₂
    (fun f block => ∃ text rows, block = lead ++ ink text :: rows ∧
      rows.length = f.findings.length ∧ Identifies directory f.file text)
    r blocks

/- For each file its rows, each of which begins by naming it. -/
def Labelled (directory sign : String) (r : Report) (blocks : List (List String)) : Prop :=
  List.Forall₂
    (fun f rows => rows.length = f.findings.length ∧
      ∀ row ∈ rows, ∃ text rest, row = text ++ sign ++ rest ∧ Identifies directory f.file text)
    r blocks

/- In the styles with headers these name the files, in the others each row does. -/
structure NamesFiles (directory : String) (r : Report) : Prop where
  stylish : ∀ colors, ∃ blocks,
    Stylish.render directory colors r =
      Text.unlines (blocks.flatten ++ Stylish.countLines colors r) ∧
    Headed directory [""] (Text.ink colors [.underlined]) (r.filter FileReport.isListed) blocks
  plain : ∀ colors, ∃ blocks,
    Plain.render directory colors r = Text.unlines blocks.flatten ∧
    Headed directory [] (Text.ink colors [.bold]) (r.filter FileReport.isListed) blocks
  compact : ∃ blocks, Compact.render directory r = Text.unlines (blocks.flatten ++ countLines r) ∧
    Labelled directory ": line " r blocks
  unix : ∃ blocks, Unix.render directory r = Text.unlines (blocks.flatten ++ countLines r) ∧
    Labelled directory ":" r blocks

/- No file with findings is the directory itself or without a text. -/
def Nameable (directory : String) (r : Report) : Prop :=
  ∀ f ∈ r, f.isListed = true → f.file ≠ "" ∧ ¬ Itself directory f.file

instance (directory : String) (r : Report) : Decidable (Nameable directory r) := by
  unfold Nameable; infer_instance

variable {directory : String} {r : Report}

theorem nameableIdentifies (nameable : Nameable directory r) {f : FileReport} (member : f ∈ r)
    (listed : f.isListed = true) :
    Identifies directory f.file (Path.shown directory f.file) := by
  obtain ⟨named, apart⟩ := nameable f member listed
  exact identifiesShown apart named

theorem blocksHeaded (nameable : Nameable directory r) (lead : List String)
    (ink : String → String) (row : FileReport → Finding → String) :
    Headed directory lead ink (r.filter FileReport.isListed)
      ((r.filter FileReport.isListed).map fun f =>
        lead ++ ink (Path.shown directory f.file) :: f.findings.map (row f)) := by
  rw [Headed, List.forall₂_map_right_iff, List.forall₂_same]
  intro f member
  obtain ⟨there, listed⟩ := List.mem_filter.mp member
  exact ⟨_, _, rfl, List.length_map _, nameableIdentifies nameable there listed⟩

theorem rowsLabelled (nameable : Nameable directory r) {sign : String}
    {row : String → Finding → String}
    (begins : ∀ file x, ∃ rest, row file x = Path.shown directory file ++ sign ++ rest) :
    Labelled directory sign r (r.map fun f => f.findings.map (row f.file)) := by
  rw [Labelled, List.forall₂_map_right_iff, List.forall₂_same]
  intro f member
  refine ⟨List.length_map _, fun l inside => ?_⟩
  obtain ⟨x, found, rfl⟩ := List.mem_map.mp inside
  obtain ⟨rest, begun⟩ := begins f.file x
  have listed : f.isListed = true := by
    rw [FileReport.isListed, Bool.not_eq_true', List.isEmpty_eq_false_iff_exists_mem]
    exact ⟨x, found⟩
  exact ⟨_, rest, begun, nameableIdentifies nameable member listed⟩

theorem compactBegins (directory file : String) (x : Finding) :
    ∃ rest, Compact.row directory file x = Path.shown directory file ++ ": line " ++ rest :=
  ⟨_, by simp only [Compact.row, String.append_assoc]; rfl⟩

theorem unixBegins (directory file : String) (x : Finding) :
    ∃ rest, Unix.row directory file x = Path.shown directory file ++ ":" ++ rest :=
  ⟨_, by simp only [Unix.row, String.append_assoc]; rfl⟩

theorem nameableNames (nameable : Nameable directory r) : NamesFiles directory r := by
  constructor
  case stylish =>
    intro colors
    refine ⟨_, ?_, blocksHeaded nameable _ _ fun f => (Stylish.Columns.of f.findings).row colors⟩
    rw [← List.flatMap_def]
    rfl
  case plain =>
    intro colors
    refine ⟨_, ?_, blocksHeaded nameable _ _ fun _ => Plain.row colors⟩
    rw [← List.flatMap_def]
    rfl
  case compact =>
    refine ⟨_, ?_, rowsLabelled nameable (compactBegins directory)⟩
    rw [← List.flatMap_def]
    rfl
  case unix =>
    refine ⟨_, ?_, rowsLabelled nameable (unixBegins directory)⟩
    rw [← List.flatMap_def]
    rfl

theorem onlyBelowShortened (directory : String) :
    (∀ file, ShownBelow directory file ↔ ¬ Itself directory file) ∧
      ∀ r : Report, Nameable directory r → NamesFiles directory r :=
  ⟨fun _ => Path.shownBelowApart, fun _ => nameableNames⟩

/- A file below the directory beside one whose path only begins alike. -/
def beside : Report :=
  [⟨"/work//web/./a.js", 1, 0, [⟨1, 1, .error, "no end", none, true⟩]⟩,
    ⟨"/workshop/b.js", 0, 1, [⟨0, 0, .warning, "", some "semi", false⟩]⟩, ⟨"/work", 0, 0, []⟩]

theorem onlyBelowShortenedSample :
    ¬ Itself "/work" "/work//web/./a.js" ∧ ShownBelow "/work" "/work//web/./a.js" ∧
      Nameable "/work" beside ∧ NamesFiles "/work" beside := by
  have apart : ¬ Itself "/work" "/work//web/./a.js" := by decide
  have nameable : Nameable "/work" beside := by decide
  obtain ⟨files, reports⟩ := onlyBelowShortened "/work"
  exact ⟨apart, (files _).mpr apart, nameable, reports beside nameable⟩

/- The directory itself is shown as nothing at all, and its row has no path in front. -/
theorem directoryUnnamed :
    (¬ ∀ parts, (∀ part ∈ parts, Path.Names part ∧ part ≠ "..") →
      ∀ file, ShownBelow ("/" ++ Path.join parts) file) ∧
    Path.shown "/work" "/work" = "" ∧
    Unix.render "/work" [⟨"/work", 1, 0, [⟨1, 1, .error, "no end", none, true⟩]⟩] =
      ":1:1: no end [Error]\n\n1 problem\n" := by
  refine ⟨fun claim => ?_, by decide, by decide +kernel⟩
  have plain : ∀ part ∈ ["work"], Path.Names part ∧ part ≠ ".." := by
    rw [List.forall_mem_singleton]
    exact ⟨⟨by decide, by decide, by decide⟩, by decide⟩
  have shownBelow := claim ["work"] plain "/work"
  exact shownBelow.filled (by decide) (by decide)

end Report
end LintGate
