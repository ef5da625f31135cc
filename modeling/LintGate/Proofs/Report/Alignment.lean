import LintGate.Proofs.Report.Rows
import LintGate.Proofs.Report.Stylish
import LintGate.Proofs.Text.Layout
/-! The tables of the stylish report without colours. In the rows of one file each cell begins where
it begins in the others, whole and no further to the right than the widest cells before it need. -/
namespace LintGate.Report.Stylish
open Text (Solid spaces decimal)

/- Where the cells of a row stand, counted in code points from the start of the row. -/
structure Offsets where
  colon : Nat
  label : Nat
  text : Nat
  rule : Nat
  deriving DecidableEq, Repr

/- The cell is in the row from the offset on. -/
def StandsAt (offset : Nat) (cell row : String) : Prop :=
  ∃ before after, row = before ++ cell ++ after ∧ before.length = offset

/- Line, column and label of a row, all of them there and with nothing but spaces before them. -/
def Placed (o : Offsets) (f : Finding) (row : String) : Prop :=
  ∃ margin gap after,
    row = spaces margin ++ decimal f.line ++ ":" ++ decimal f.column ++ spaces gap ++
      f.severity.label ++ after ∧
    2 ≤ margin ∧ margin + (decimal f.line).length = o.colon ∧
    2 ≤ gap ∧ o.colon + 1 + (decimal f.column).length + gap = o.label

/- Behind the label a row lacks no more than the white space at its end. -/
structure Aligned (o : Offsets) (f : Finding) (row : String) : Prop where
  placed : Placed o f row
  period : f.text = sentence f.text ∨ f.text = sentence f.text ++ "."
  text : ∃ gone, Text.isBlankText gone = true ∧ StandsAt o.text (sentence f.text) (row ++ gone)
  rule : ∀ rule, f.rule = some rule → Solid rule.toList →
    ∃ before, row = before ++ rule ∧ before.length = o.rule

/- Each column is as wide as one of its cells, and is followed by two spaces. -/
structure Tight (o : Offsets) (fs : List Finding) : Prop where
  line : ∃ f ∈ fs, 2 + (decimal f.line).length = o.colon
  column : ∃ f ∈ fs, o.colon + 1 + (decimal f.column).length + 2 = o.label
  label : ∃ f ∈ fs, o.label + f.severity.label.length + 2 = o.text
  text : ∃ f ∈ fs, o.text + (sentence f.text).length + 2 = o.rule

variable {directory : String} {r : Report} {w : Columns} {f : Finding} {fs : List Finding}

/-! ### Cells -/

namespace Columns

def offsets (w : Columns) : Offsets where
  colon := 2 + w.line
  label := 2 + w.line + 1 + w.column + 2
  text := 2 + w.line + 1 + w.column + 2 + w.label + 2
  rule := 2 + w.line + 1 + w.column + 2 + w.label + 2 + w.text + 2

/- What no trimming takes away. -/
def lead (w : Columns) (f : Finding) : String :=
  "  " ++ w.position f ++ "  " ++ f.severity.label

def remark (w : Columns) (f : Finding) : String :=
  spaces (w.label - f.severity.label.length + 2) ++ Text.padEnd w.text (sentence f.text) ++ "  " ++
    f.rule.getD ""

structure Holds (w : Columns) (f : Finding) : Prop where
  line : (decimal f.line).length ≤ w.line
  column : (decimal f.column).length ≤ w.column
  label : f.severity.label.length ≤ w.label
  text : (sentence f.text).length ≤ w.text

end Columns

theorem columnsHold (member : f ∈ fs) : (Columns.of fs).Holds f :=
  ⟨Text.widestBound (List.mem_map_of_mem member), Text.widestBound (List.mem_map_of_mem member),
    Text.widestBound (List.mem_map_of_mem member), Text.widestBound (List.mem_map_of_mem member)⟩

theorem cellAttained (filled : fs ≠ []) (cell : Finding → String) :
    ∃ f ∈ fs, (cell f).length = Text.widest (fs.map cell) := by
  have some : fs.map cell ≠ [] := by simpa using filled
  obtain ⟨_, member, width⟩ := Text.widestAttained some
  obtain ⟨f, there, rfl⟩ := List.mem_map.mp member
  exact ⟨f, there, width⟩

theorem columnsTight (filled : fs ≠ []) : Tight (Columns.of fs).offsets fs := by
  obtain ⟨a, inLine, line⟩ := cellAttained filled fun f => decimal f.line
  obtain ⟨b, inColumn, column⟩ := cellAttained filled fun f => decimal f.column
  obtain ⟨c, inLabel, label⟩ := cellAttained filled fun f => f.severity.label
  obtain ⟨d, inText, text⟩ := cellAttained filled fun f => sentence f.text
  refine ⟨⟨a, inLine, ?_⟩, ⟨b, inColumn, ?_⟩, ⟨c, inLabel, ?_⟩, ⟨d, inText, ?_⟩⟩
  · rw [line]; rfl
  · rw [column]; rfl
  · rw [label]; rfl
  · rw [text]; rfl

theorem cellsLead (w : Columns) (f : Finding) : w.cells false f = w.lead f ++ w.remark f := by
  have gap (n : Nat) : spaces (n + 2) = spaces n ++ "  " := (Text.spacesTogether n 2).symm
  simp only [Columns.cells, Columns.lead, Columns.remark, gap, Text.inkPlain, Text.padEnd,
    String.append_assoc]

theorem leadSolid (w : Columns) (f : Finding) : Solid (w.lead f).toList := by
  have label : Solid f.severity.label.toList := by
    cases f.severity with
    | warning => exact ⟨"warnin".toList, 'g', rfl, rfl⟩
    | error => exact ⟨"erro".toList, 'r', rfl, rfl⟩
  rw [Columns.lead, String.toList_append]
  exact Text.solidBehind label _

/- What follows the label in the row begins with a space, if anything is left of it. -/
theorem rowLead (w : Columns) (f : Finding) : ∃ after,
    w.row false f = w.lead f ++ after ∧ ∀ c ∈ after.toList.head?, c = ' ' := by
  have spaced : (w.remark f).toList.head? = some ' ' := by
    simp [Columns.remark, spaces, List.replicate_succ]
  refine ⟨Text.trimEnd (w.remark f), ?_, ?_⟩
  · rw [Columns.row, Text.trimEnd, Text.trimEnd, cellsLead, String.toList_append,
      Text.trimBehind (leadSolid w f), String.ofList_append, String.ofList_toList]
  · intro c first
    obtain ⟨gone, split, _⟩ := Text.endSplit (w.remark f).toList
    rw [Text.trimEnd, String.toList_ofList] at first
    obtain ⟨tail, kept⟩ := List.head?_eq_some_iff.mp first
    rw [split, kept, List.cons_append, List.head?_cons] at spaced
    exact Option.some.inj spaced

theorem leadParts (w : Columns) (f : Finding) :
    w.lead f = spaces (w.line - (decimal f.line).length + 2) ++ decimal f.line ++ ":" ++
      decimal f.column ++ spaces (w.column - (decimal f.column).length + 2) ++
      f.severity.label := by
  have behind (n : Nat) : spaces (n + 2) = spaces n ++ "  " := (Text.spacesTogether n 2).symm
  have ahead (n : Nat) : "  " ++ spaces n = spaces (n + 2) := by
    rw [Nat.add_comm]
    exact Text.spacesTogether 2 n
  rw [← ahead, behind]
  simp only [Columns.lead, Columns.position, Text.padStart, Text.padEnd, String.append_assoc]

/-! ### Rows -/

theorem sentencePeriod (text : String) : text = sentence text ∨ text = sentence text ++ "." := by
  have period : ".".toList = ['.'] := rfl
  unfold sentence
  split
  · rename_i c rest shape
    split
    · exact .inl rfl
    · refine .inr ?_
      have whole := congrArg List.reverse shape
      rw [List.reverse_reverse] at whole
      rw [← String.toList_inj, String.toList_append, String.toList_ofList, period, whole]
      simp
  · exact .inl rfl

theorem rowPlaced (holds : w.Holds f) : Placed w.offsets f (w.row false f) := by
  obtain ⟨line, column, _, _⟩ := holds
  obtain ⟨after, row, _⟩ := rowLead w f
  refine ⟨w.line - (decimal f.line).length + 2, w.column - (decimal f.column).length + 2, after,
    by rw [row, leadParts], by omega, ?_, by omega, ?_⟩
  · show _ = 2 + w.line
    omega
  · show 2 + w.line + 1 + _ + _ = 2 + w.line + 1 + w.column + 2
    omega

theorem cellsText (holds : w.Holds f) :
    StandsAt w.offsets.text (sentence f.text) (w.cells false f) := by
  obtain ⟨line, column, label, _⟩ := holds
  refine ⟨w.lead f ++ spaces (w.label - f.severity.label.length + 2),
    spaces (w.text - (sentence f.text).length) ++ "  " ++ f.rule.getD "", ?_, ?_⟩
  · rw [cellsLead]
    simp only [Columns.remark, Text.padEnd, String.append_assoc]
  · have colon : ":".length = 1 := rfl
    rw [leadParts]
    simp only [String.length_append, Text.spacesLength]
    show _ = 2 + w.line + 1 + w.column + 2 + w.label + 2
    omega

theorem frontLength (holds : w.Holds f) : (w.front false f).length = w.offsets.rule := by
  obtain ⟨line, column, label, text⟩ := holds
  simp only [Columns.front, Columns.position, Text.inkPlain, String.length_append,
    Text.padStartLength line, Text.padEndLength column, Text.padEndLength label,
    Text.padEndLength text]
  show 2 + (w.line + 1 + w.column) + 2 + w.label + 2 + w.text + 2 =
    2 + w.line + 1 + w.column + 2 + w.label + 2 + w.text + 2
  omega

theorem rowAligned (holds : w.Holds f) : Aligned w.offsets f (w.row false f) := by
  refine ⟨rowPlaced holds, sentencePeriod f.text, ?_, ?_⟩
  · obtain ⟨gone, split, blank⟩ := Text.endSplit (w.cells false f).toList
    have whole : w.row false f ++ String.ofList gone = w.cells false f := by
      rw [Columns.row, Text.trimEnd, ← String.ofList_append, ← split, String.ofList_toList]
    refine ⟨String.ofList gone, ?_, whole ▸ cellsText holds⟩
    rw [Text.isBlankText, String.toList_ofList]
    exact List.all_eq_true.mpr blank
  · intro rule stated solid
    have ends : f.EndsInRule := ⟨rule, stated, solid⟩
    refine ⟨w.front false f, ?_, frontLength holds⟩
    rw [← (rowKept w f).mpr ends, cellsParts, stated, Text.inkPlain, Option.getD_some]

/-! ### The report -/

theorem linesSplit (directory : String) (oneLine : r.OneLine) :
    Text.linesOf (render directory false r) =
      ((r.filter FileReport.isListed).map (block directory false)).flatten ++
        countLines false r := by
  rw [← List.flatMap_def]
  exact Text.linesUnlines (linesLack (by decide) fun f member =>
    (oneLine f member).lacks directory)

/- The rows of a file's findings with the offsets that all of them share. -/
structure Table (f : FileReport) (o : Offsets) (rows : List String) : Prop where
  aligned : List.Forall₂ (Aligned o) f.findings rows
  tight : Tight o f.findings

theorem blockTable {f : FileReport} (listed : f.isListed = true) :
    Table f (Columns.of f.findings).offsets
      (f.findings.map ((Columns.of f.findings).row false)) := by
  refine ⟨?_, columnsTight ?_⟩
  · rw [List.forall₂_map_right_iff, List.forall₂_same]
    exact fun x member => rowAligned (columnsHold member)
  · simpa [FileReport.isListed] using listed

theorem columnsLineUp (directory : String) (oneLine : r.OneLine) :
    ∃ blocks : List (List String),
      Text.linesOf (render directory false r) = blocks.flatten ++ countLines false r ∧
        List.Forall₂
          (fun f block => ∃ o rows, block = "" :: Path.shown directory f.file :: rows ∧
            Table f o rows)
          (r.filter FileReport.isListed) blocks := by
  refine ⟨_, linesSplit directory oneLine, ?_⟩
  rw [List.forall₂_map_right_iff, List.forall₂_same]
  intro f member
  exact ⟨_, _, rfl, blockTable (List.mem_filter.mp member).2⟩

/- Cells of several widths, one of them outside ASCII, and a finding without a rule. -/
def uneven : Report :=
  [⟨"b.js", 0, 0, []⟩, ⟨"/work/a.js", 1, 1, [ruled, ⟨103, 1, .error, "Größe × 2.", none, false⟩]⟩]

theorem columnsLineUpSample :
    uneven.OneLine ∧ ∃ blocks : List (List String),
      Text.linesOf (render "/work" false uneven) = blocks.flatten ++ countLines false uneven ∧
        List.Forall₂
          (fun f block => ∃ o rows, block = "" :: Path.shown "/work" f.file :: rows ∧
            Table f o rows)
          (uneven.filter FileReport.isListed) blocks := by
  have oneLine : uneven.OneLine := by decide
  exact ⟨oneLine, columnsLineUp "/work" oneLine⟩

example : render "/work" false uneven =
    "\na.js\n   12:3  warning  Missing semicolon  semi\n  103:1  error    Größe × 2\n\n" ++
      "✖ 2 problems (1 error, 1 warning)\n" := by
  decide +kernel

end LintGate.Report.Stylish
