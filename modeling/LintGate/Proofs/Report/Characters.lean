import LintGate.Proofs.Path
import LintGate.Proofs.Text.Lines
import LintGate.Proofs.Text.Trimming
import LintGate.Report.Compact
import LintGate.Report.Stylish
import LintGate.Report.Unix
/-! The characters of a row. What a style puts around a finding has no control character, so that a
row without colours lacks such a character, a line break or an escape character say, unless it comes
from the path, the text or the rule. -/
namespace LintGate
open Text (lacksAppend lacksWord lacksNumber)

variable {c : Char}

theorem Path.shownLacks (other : c ≠ '/') (directory : String) {file : String}
    (lacks : Text.Lacks c file) : Text.Lacks c (shown directory file) := by
  intro member
  rcases shownChars member with slash | inside
  · exact other slash
  · exact lacks inside

structure Finding.Lacks (c : Char) (f : Finding) : Prop where
  text : Text.Lacks c f.text
  rule : ∀ rule ∈ f.rule, Text.Lacks c rule

structure FileReport.Lacks (c : Char) (directory : String) (f : FileReport) : Prop where
  path : Text.Lacks c (Path.shown directory f.file)
  findings : ∀ x ∈ f.findings, x.Lacks c

theorem Severity.titleLacks (control : c.toNat < 32) (s : Severity) : Text.Lacks c s.title :=
  lacksWord control (by cases s <;> rfl)

theorem Severity.labelLacks (control : c.toNat < 32) (s : Severity) : Text.Lacks c s.label :=
  lacksWord control (by cases s <;> rfl)

namespace Report

variable {directory file : String} {f : Finding} {r : Report}

/-! ### Parts of a row -/

theorem ruleLacks (control : c.toNat < 32) (lacks : f.Lacks c) :
    Text.Lacks c (match f.rule with
      | some rule => " (" ++ rule ++ ")"
      | none => "") := by
  have opening : Text.Lacks c " (" := lacksWord control rfl
  have closing : Text.Lacks c ")" := lacksWord control rfl
  cases stated : f.rule with
  | none => exact List.not_mem_nil
  | some rule => simp only [lacksAppend, opening, lacks.rule rule stated, closing, and_self]

theorem Unix.tagLacks (control : c.toNat < 32) (lacks : f.Lacks c) : Text.Lacks c (tag f) := by
  have opening : Text.Lacks c "[" := lacksWord control rfl
  have slash : Text.Lacks c "/" := lacksWord control rfl
  have closing : Text.Lacks c "]" := lacksWord control rfl
  have title := f.severity.titleLacks control
  unfold tag
  cases stated : f.rule with
  | none => simp only [lacksAppend, opening, title, closing, and_self]
  | some rule =>
    simp only [lacksAppend, opening, title, slash, lacks.rule rule stated, closing, and_self]

theorem Stylish.sentenceChars {text : String} : ∀ c ∈ (sentence text).toList, c ∈ text.toList := by
  unfold sentence
  intro c member
  split at member
  · rename_i d rest shape
    split at member
    · exact member
    · rw [String.toList_ofList, List.mem_reverse] at member
      rw [← List.mem_reverse, shape]
      exact List.mem_cons_of_mem _ member
  · exact member

theorem Stylish.sentenceLacks {text : String} (lacks : Text.Lacks c text) :
    Text.Lacks c (sentence text) :=
  fun member => lacks (sentenceChars c member)

theorem spaceOther (control : c.toNat < 32) : c ≠ ' ' := by
  rintro rfl
  exact absurd control (by decide)

theorem Stylish.positionLacks (control : c.toNat < 32) (w : Columns) (f : Finding) :
    Text.Lacks c (w.position f) := by
  have colon : Text.Lacks c ":" := lacksWord control rfl
  have line := Text.lacksPadStart (spaceOther control) w.line (lacksNumber control f.line)
  have column := Text.lacksPadEnd (spaceOther control) w.column (lacksNumber control f.column)
  simp only [Columns.position, lacksAppend, line, colon, column, and_self]

theorem Stylish.missingLacks (lacks : f.Lacks c) : Text.Lacks c (f.rule.getD "") := by
  cases stated : f.rule with
  | none => exact List.not_mem_nil
  | some rule => exact lacks.rule rule stated

/-! ### Rows -/

theorem Compact.rowLacks (control : c.toNat < 32) (path : Text.Lacks c (Path.shown directory file))
    (lacks : f.Lacks c) : Text.Lacks c (row directory file f) := by
  have line : Text.Lacks c ": line " := lacksWord control rfl
  have col : Text.Lacks c ", col " := lacksWord control rfl
  have comma : Text.Lacks c ", " := lacksWord control rfl
  have dash : Text.Lacks c " - " := lacksWord control rfl
  refine lacksAppend.mpr ⟨?_, ruleLacks control lacks⟩
  simp only [lacksAppend, path, line, lacksNumber control, col, comma,
    f.severity.titleLacks control, dash, lacks.text, and_self]

theorem Unix.rowLacks (control : c.toNat < 32) (path : Text.Lacks c (Path.shown directory file))
    (lacks : f.Lacks c) : Text.Lacks c (row directory file f) := by
  have colon : Text.Lacks c ":" := lacksWord control rfl
  have gap : Text.Lacks c ": " := lacksWord control rfl
  have space : Text.Lacks c " " := lacksWord control rfl
  simp only [row, lacksAppend, path, colon, lacksNumber control, gap, lacks.text, space,
    tagLacks control lacks, and_self]

theorem Plain.rowLacks (control : c.toNat < 32) (lacks : f.Lacks c) :
    Text.Lacks c (row false f) := by
  have line : Text.Lacks c "  line " := lacksWord control rfl
  have column : Text.Lacks c ", column " := lacksWord control rfl
  have space : Text.Lacks c " " := lacksWord control rfl
  have opening : Text.Lacks c "[" := lacksWord control rfl
  have closing : Text.Lacks c "]" := lacksWord control rfl
  refine lacksAppend.mpr ⟨?_, ruleLacks control lacks⟩
  simp only [label, Text.inkPlain, lacksAppend, line, lacksNumber control, column, space, opening,
    f.severity.labelLacks control, closing, lacks.text, and_self]

theorem Stylish.cellsLacks (control : c.toNat < 32) (w : Columns) (lacks : f.Lacks c) :
    Text.Lacks c (w.cells false f) := by
  have gap : Text.Lacks c "  " := lacksWord control rfl
  have label := Text.lacksPadEnd (spaceOther control) w.label (f.severity.labelLacks control)
  have text := Text.lacksPadEnd (spaceOther control) w.text (sentenceLacks lacks.text)
  simp only [Columns.cells, Text.inkPlain, lacksAppend, gap, positionLacks control, label, text,
    missingLacks lacks, and_self]

theorem Stylish.rowLacks (control : c.toNat < 32) (w : Columns) (lacks : f.Lacks c) :
    Text.Lacks c (w.row false f) := by
  rw [Columns.row, Text.trimEnd, Text.Lacks, String.toList_ofList]
  exact fun member => cellsLacks control w lacks (Text.trimSubset member)

/-! ### Reports -/

theorem rowsLack {row : String → Finding → String}
    (each : ∀ f ∈ r, ∀ x ∈ f.findings, Text.Lacks c (row f.file x)) :
    ∀ l ∈ rows row r, Text.Lacks c l := by
  intro l member
  obtain ⟨f, listed, inside⟩ := List.mem_flatMap.mp member
  obtain ⟨x, found, rfl⟩ := List.mem_map.mp inside
  exact each f listed x found

theorem countLacks (control : c.toNat < 32) (r : Report) : ∀ l ∈ countLines r, Text.Lacks c l := by
  unfold countLines
  dsimp only
  split
  · exact List.forall_mem_cons.mpr ⟨List.not_mem_nil,
      List.forall_mem_singleton.mpr (Text.lacksPlural control _ rfl)⟩
  · simp

theorem Stylish.countLacks (control : c.toNat < 32) (s : Summary) : Text.Lacks c (count s) := by
  have sign : Text.Lacks c "✖ " := lacksWord control rfl
  have problems : Text.Lacks c (Text.plural s.problems "problem") :=
    Text.lacksPlural control _ rfl
  have opening : Text.Lacks c " (" := lacksWord control rfl
  have errors : Text.Lacks c (Text.plural s.errors "error") :=
    Text.lacksPlural control _ rfl
  have comma : Text.Lacks c ", " := lacksWord control rfl
  have warnings : Text.Lacks c (Text.plural s.warnings "warning") :=
    Text.lacksPlural control _ rfl
  have closing : Text.Lacks c ")" := lacksWord control rfl
  simp only [count, lacksAppend, sign, problems, opening, errors, comma, warnings, closing,
    and_self]

theorem Stylish.countLinesLack (control : c.toNat < 32) (r : Report) :
    ∀ l ∈ countLines false r, Text.Lacks c l := by
  unfold countLines
  dsimp only
  split
  · exact List.forall_mem_cons.mpr ⟨List.not_mem_nil,
      List.forall_mem_singleton.mpr (countLacks control _)⟩
  · simp

theorem Compact.linesLack (control : c.toNat < 32) (lacks : ∀ f ∈ r, f.Lacks c directory) :
    ∀ l ∈ lines directory r, Text.Lacks c l := by
  refine List.forall_mem_append.mpr ⟨rowsLack fun f member x found => ?_, countLacks control r⟩
  exact rowLacks control (lacks f member).path ((lacks f member).findings x found)

theorem Unix.linesLack (control : c.toNat < 32) (lacks : ∀ f ∈ r, f.Lacks c directory) :
    ∀ l ∈ lines directory r, Text.Lacks c l := by
  refine List.forall_mem_append.mpr ⟨rowsLack fun f member x found => ?_, countLacks control r⟩
  exact rowLacks control (lacks f member).path ((lacks f member).findings x found)

theorem Plain.linesLack (control : c.toNat < 32) (lacks : ∀ f ∈ r, f.Lacks c directory) :
    ∀ l ∈ lines directory false r, Text.Lacks c l := by
  intro l member
  obtain ⟨f, there, inside⟩ := List.mem_flatMap.mp member
  have safe := lacks f (List.mem_filter.mp there).1
  rcases List.mem_cons.mp inside with rfl | row
  · exact safe.path
  · obtain ⟨x, found, rfl⟩ := List.mem_map.mp row
    exact rowLacks control (safe.findings x found)

theorem Stylish.linesLack (control : c.toNat < 32) (lacks : ∀ f ∈ r, f.Lacks c directory) :
    ∀ l ∈ lines directory false r, Text.Lacks c l := by
  intro l member
  rcases List.mem_append.mp member with listed | last
  · obtain ⟨f, there, inside⟩ := List.mem_flatMap.mp listed
    have safe := lacks f (List.mem_filter.mp there).1
    rcases List.mem_cons.mp inside with rfl | inside
    · exact List.not_mem_nil
    · rcases List.mem_cons.mp inside with rfl | inside
      · exact safe.path
      · obtain ⟨x, found, rfl⟩ := List.mem_map.mp inside
        exact rowLacks control _ (safe.findings x found)
  · exact countLinesLack control r l last

end Report
end LintGate
