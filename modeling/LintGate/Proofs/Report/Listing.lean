import LintGate.Proofs.Report.Alignment
/-! The findings that a report shows to its reader. The compact, the plain and the stylish style put
different things around a finding, but line by line they show the same findings in the same order,
and nothing else. -/
namespace LintGate.Report
open Text (cut? cutFirst decimal lacksDecimal)
open LintGate.Path (beyond? beyondAppend)

/- What every style shows of a finding. -/
structure Sighting where
  path : String
  line : Nat
  column : Nat
  severity : Severity
  deriving DecidableEq, Repr

def sighting (directory file : String) (f : Finding) : Sighting :=
  ⟨Path.shown directory file, f.line, f.column, f.severity⟩

def sightings (directory : String) (r : Report) : List Sighting :=
  r.flatMap fun f => f.findings.map (sighting directory f.file)

/-! ### Layouts -/

/- The lines in front of the rows of a file, and what a row shows of a file of that path. -/
structure Layout where
  heading : String → List String
  shows? : String → String → Option Sighting

/- The rows of one file under the path that is displayed for it. -/
structure Block where
  path : String
  rows : List String
  deriving DecidableEq, Repr

namespace Layout

def lines (l : Layout) (b : Block) : List String := l.heading b.path ++ b.rows

def seen (l : Layout) (b : Block) : List (Option Sighting) := b.rows.map (l.shows? b.path)

/- Block by block the files with findings, and row by row the findings of each. -/
structure Shows (l : Layout) (directory : String) (r : Report) (blocks : List Block) : Prop where
  files : blocks.map Block.path =
    (r.filter FileReport.isListed).map fun f => Path.shown directory f.file
  rows : List.Forall₂
    (fun f b => l.seen b = f.findings.map fun x => some (sighting directory f.file x))
    (r.filter FileReport.isListed) blocks
  sequence : blocks.flatMap l.seen = (sightings directory r).map some

/- A text consists of blocks that show the report, and of an ending. -/
def Lists (l : Layout) (directory : String) (r : Report) (text : String) (ending : List String) :
    Prop :=
  ∃ blocks, Text.linesOf text = blocks.flatMap l.lines ++ ending ∧ l.Shows directory r blocks

end Layout

/- What may come behind the last block: a count of the problems, if there are any. -/
def ending (s : Summary) (count : String) : List String :=
  if 0 < s.problems then ["", count] else []

def compactLayout : Layout where
  heading _ := []
  shows? path row := do
    let rest ← beyond? (path ++ ": line ").toList row.toList
    let (line, rest) ← cut? ',' rest
    let rest ← beyond? " col ".toList rest
    let (column, rest) ← cut? ',' rest
    let rest ← beyond? " ".toList rest
    let (title, _) ← cut? ' ' rest
    some ⟨path, ← number? line, ← number? column, ← severity? Severity.title title⟩

def plainLayout : Layout where
  heading path := [path]
  shows? path row := do
    let rest ← beyond? "  line ".toList row.toList
    let (line, rest) ← cut? ',' rest
    let rest ← beyond? " column ".toList rest
    let (column, rest) ← cut? ' ' rest
    let rest ← beyond? "[".toList rest
    let (label, _) ← cut? ']' rest
    some ⟨path, ← number? line, ← number? column, ← severity? Severity.label label⟩

def stylishLayout : Layout where
  heading path := ["", path]
  shows? path row := do
    let (line, rest) ← cut? ':' (row.toList.dropWhile (· = ' '))
    let (column, rest) ← cut? ' ' rest
    let label := (rest.dropWhile (· = ' ')).takeWhile (· ≠ ' ')
    some ⟨path, ← number? line, ← number? column, ← severity? Severity.label label⟩

variable {directory : String} {r : Report} {f : Finding} {l : Layout}

/-! ### Rows -/

theorem compactSeen (directory file : String) (f : Finding) :
    compactLayout.shows? (Path.shown directory file) (Compact.row directory file f) =
      some (sighting directory file f) := by
  have line := lacksDecimal (c := ',') rfl f.line
  have column := lacksDecimal (c := ',') rfl f.column
  have title : ' ' ∉ f.severity.title.toList := by cases f.severity <;> decide
  obtain ⟨rest, parts⟩ : ∃ rest, (Compact.row directory file f).toList =
      (Path.shown directory file ++ ": line ").toList ++ ((decimal f.line).toList ++ ',' ::
        (" col ".toList ++ ((decimal f.column).toList ++ ',' :: (" ".toList ++
          (f.severity.title.toList ++ ' ' :: rest))))) :=
    ⟨_, by simp [Compact.row]; rfl⟩
  simp only [compactLayout, parts, beyondAppend, cutFirst line, cutFirst column, cutFirst title,
    numberTold, titleTold, Option.bind_eq_bind, Option.bind_some, sighting]

theorem plainSeen (directory file : String) (f : Finding) :
    plainLayout.shows? (Path.shown directory file) (Plain.row false f) =
      some (sighting directory file f) := by
  have line := lacksDecimal (c := ',') rfl f.line
  have column := lacksDecimal (c := ' ') rfl f.column
  have label : ']' ∉ f.severity.label.toList := by cases f.severity <;> decide
  obtain ⟨rest, parts⟩ : ∃ rest, (Plain.row false f).toList =
      "  line ".toList ++ ((decimal f.line).toList ++ ',' :: (" column ".toList ++
        ((decimal f.column).toList ++ ' ' :: ("[".toList ++
          (f.severity.label.toList ++ ']' :: rest))))) :=
    ⟨_, by simp [Plain.row, Plain.label, Text.inkPlain]; rfl⟩
  simp only [plainLayout, parts, beyondAppend, cutFirst line, cutFirst column, cutFirst label,
    numberTold, labelTold, Option.bind_eq_bind, Option.bind_some, sighting]

theorem wordBegins {word : List Char} (filled : word ≠ []) (lacks : ' ' ∉ word) (n : Nat)
    (rest : List Char) :
    ((Text.spaces n).toList ++ (word ++ rest)).dropWhile (· = ' ') = word ++ rest := by
  have space : ∀ c ∈ (Text.spaces n).toList, decide (c = ' ') = true := by
    intro c member
    rw [Text.spaces, String.toList_ofList] at member
    exact decide_eq_true (List.eq_of_mem_replicate member)
  obtain ⟨c, cs, rfl⟩ := List.exists_cons_of_ne_nil filled
  rw [List.mem_cons, not_or] at lacks
  rw [List.dropWhile_append_of_pos space, List.cons_append, List.dropWhile_cons_of_neg]
  simpa using Ne.symm lacks.1

theorem wordEnds {word rest : List Char} (lacks : ' ' ∉ word) (spaced : ∀ c ∈ rest.head?, c = ' ') :
    (word ++ rest).takeWhile (· ≠ ' ') = word := by
  have inside : ∀ c ∈ word, decide (c ≠ ' ') = true := by
    intro c member
    rw [decide_eq_true_eq]
    intro same
    subst same
    exact lacks member
  rw [List.takeWhile_append_of_pos inside]
  cases rest with
  | nil => simp
  | cons c rest =>
    have space : c = ' ' := spaced c rfl
    simp [space]

theorem stylishSeen (directory file : String) (w : Stylish.Columns) (f : Finding) :
    stylishLayout.shows? (Path.shown directory file) (w.row false f) =
      some (sighting directory file f) := by
  have line := lacksDecimal (c := ':') rfl f.line
  have column := lacksDecimal (c := ' ') rfl f.column
  have label : ' ' ∉ f.severity.label.toList := by cases f.severity <;> decide
  have digits (n : Nat) : (decimal n).toList ≠ [] := by
    rw [decimal, String.toList_ofList]
    exact Nat.toDigits_ne_nil
  have letters : f.severity.label.toList ≠ [] := by cases f.severity <;> decide
  obtain ⟨after, lead, spaced⟩ := Stylish.rowLead w f
  -- One of the two spaces or more behind the column ends its number.
  obtain ⟨margin, gap, parts⟩ : ∃ margin gap, (w.row false f).toList =
      (Text.spaces margin).toList ++ ((decimal f.line).toList ++ ':' ::
        ((decimal f.column).toList ++ ' ' :: ((Text.spaces gap).toList ++
          (f.severity.label.toList ++ after.toList)))) := by
    refine ⟨w.line - (decimal f.line).length + 2, w.column - (decimal f.column).length + 1, ?_⟩
    rw [lead, Stylish.leadParts]
    simp [Text.spaces, List.replicate_succ]
  have number := wordBegins (digits f.line) (lacksDecimal rfl f.line) margin
  have word := wordBegins letters label gap after.toList
  simp only [stylishLayout, parts, number, cutFirst line, cutFirst column, word,
    wordEnds label spaced, numberTold, labelTold, Option.bind_eq_bind, Option.bind_some, sighting]

/-! ### Reports -/

/- A file without findings adds nothing to what is put together from the findings. -/
theorem flatMapListed {α : Type} {g : FileReport → List α}
    (silent : ∀ f, f.findings = [] → g f = []) (r : Report) :
    (r.filter FileReport.isListed).flatMap g = r.flatMap g := by
  induction r with
  | nil => rfl
  | cons f r ih =>
    rw [List.flatMap_cons, ← ih, List.filter_cons]
    split
    · rw [List.flatMap_cons]
    · rename_i unlisted
      have none : f.findings = [] := by simpa [FileReport.isListed] using unlisted
      rw [silent f none, List.nil_append]

def blocksOf (directory : String) (row : FileReport → Finding → String) (r : Report) : List Block :=
  (r.filter FileReport.isListed).map fun f =>
    ⟨Path.shown directory f.file, f.findings.map (row f)⟩

theorem blocksShow {row : FileReport → Finding → String}
    (seen : ∀ f x, l.shows? (Path.shown directory f.file) (row f x) =
      some (sighting directory f.file x))
    (r : Report) : l.Shows directory r (blocksOf directory row r) := by
  have each (f : FileReport) :
      l.seen ⟨Path.shown directory f.file, f.findings.map (row f)⟩ =
        f.findings.map fun x => some (sighting directory f.file x) := by
    rw [Layout.seen, List.map_map]
    exact List.map_congr_left fun x _ => seen f x
  refine ⟨?_, ?_, ?_⟩
  · rw [blocksOf, List.map_map]
    rfl
  · rw [blocksOf, List.forall₂_map_right_iff, List.forall₂_same]
    exact fun f _ => each f
  · rw [blocksOf, List.flatMap_map, sightings, List.map_flatMap]
    simp only [each, List.map_map]
    exact flatMapListed (by simp) r

theorem compactLists (directory : String) (oneLine : r.OneLine) :
    compactLayout.Lists directory r (Compact.render directory r)
      (ending (Summary.ofReport r) (Text.plural (Summary.ofReport r).problems "problem")) := by
  refine ⟨_, ?_, blocksShow (fun f => compactSeen directory f.file) r⟩
  have lacks (f) (member : f ∈ r) := (oneLine f member).lacks directory
  have listed := flatMapListed (g := fun f => f.findings.map (Compact.row directory f.file))
    (fun f none => by rw [none, List.map_nil]) r
  rw [Compact.render, Text.linesUnlines (Compact.linesLack (by decide) lacks), Compact.lines, rows,
    ← listed, blocksOf, List.flatMap_map]
  rfl

theorem plainLists (directory : String) (oneLine : r.OneLine) :
    plainLayout.Lists directory r (Plain.render directory false r) [] := by
  refine ⟨_, ?_, blocksShow (fun f => plainSeen directory f.file) r⟩
  have lacks (f) (member : f ∈ r) := (oneLine f member).lacks directory
  rw [Plain.render, Text.linesUnlines (Plain.linesLack (by decide) lacks), Plain.lines, blocksOf,
    List.flatMap_map, List.append_nil]
  rfl

theorem stylishLists (directory : String) (oneLine : r.OneLine) :
    stylishLayout.Lists directory r (Stylish.render directory false r)
      (ending (Summary.ofReport r) (Stylish.count (Summary.ofReport r))) := by
  refine ⟨_, ?_, blocksShow
    (fun f => stylishSeen directory f.file (Stylish.Columns.of f.findings)) r⟩
  rw [Stylish.linesSplit directory oneLine, ← List.flatMap_def, blocksOf, List.flatMap_map]
  rfl

/- A file without findings between two others, a finding without a text, and a text that looks like
a row. -/
def scattered : Report :=
  [⟨"/work/a.js", 1, 0, [⟨1, 1, .error, "", none, true⟩, ⟨20, 3, .warning, " ", some "", false⟩]⟩,
    ⟨"b.js", 0, 0, []⟩,
    ⟨"/lib/c.js", 0, 0, [⟨0, 0, .warning, "c.js: line 6, col 7, Error - no end", none, false⟩]⟩]

end LintGate.Report
