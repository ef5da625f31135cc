import LintGate.Proofs.Json.Characters
import LintGate.Proofs.Report.Characters
import LintGate.Proofs.Report.Document
import LintGate.Proofs.Text.Coloring
import LintGate.Report.Plain
import LintGate.Report.Style
/-! Reports in colours and without. Of the formats but the stylish one only the plain report has
sequences in it, in its headers and around its labels, and so there is always something visible
between a sequence and the white space at the end. -/
namespace LintGate

namespace Text

theorem EscapeFree.append {s t : String} (left : EscapeFree s) (right : EscapeFree t) :
    EscapeFree (s ++ t) := by
  rw [EscapeFree, String.toList_append, List.mem_append]
  exact not_or.mpr ⟨left, right⟩

theorem freeUnlines {ls : List String} (free : ∀ l ∈ ls, EscapeFree l) :
    EscapeFree (unlines ls) := by
  intro member
  rw [unlines, String.toList_join, List.mem_flatMap] at member
  obtain ⟨_, there, inside⟩ := member
  obtain ⟨l, listed, rfl⟩ := List.mem_map.mp there
  exact (free l listed).append (by decide : EscapeFree "\n") inside

end Text

/-! ### Findings without escape characters -/

structure Finding.EscapeFree (f : Finding) : Prop where
  text : Text.EscapeFree f.text
  rule : ∀ rule ∈ f.rule, Text.EscapeFree rule

structure FileReport.EscapeFree (f : FileReport) : Prop where
  file : Text.EscapeFree f.file
  findings : ∀ x ∈ f.findings, x.EscapeFree

def Report.EscapeFree (r : Report) : Prop := ∀ f ∈ r, f.EscapeFree

theorem Finding.EscapeFree.lacks {f : Finding} (free : f.EscapeFree) : f.Lacks Text.escape :=
  ⟨free.text, free.rule⟩

theorem FileReport.EscapeFree.lacks {f : FileReport} (free : f.EscapeFree) (directory : String) :
    f.Lacks Text.escape directory :=
  ⟨Path.shownLacks (by decide) directory free.file, fun x found => (free.findings x found).lacks⟩

namespace Report
open Text (Colored Tailed Trimmed Solid lacksNumber)

variable {r : Report} {directory : String}

/-! ### Styles without colours -/

theorem compactFree (free : r.EscapeFree) : Text.EscapeFree (Compact.render directory r) :=
  Text.freeUnlines (Compact.linesLack (by decide) fun f member => (free f member).lacks directory)

theorem unixFree (free : r.EscapeFree) : Text.EscapeFree (Unix.render directory r) :=
  Text.freeUnlines (Unix.linesLack (by decide) fun f member => (free f member).lacks directory)

/- No escape character of a text comes into the document, whatever the texts are. -/
theorem documentFree (r : Report) (s : Summary) : Text.EscapeFree (Document.render r s) :=
  fun member => absurd (Json.Grammar.spellsVisible
    (Json.Value.prettySpells (Document.documentLawful r s) 0) _ member) (by decide)

/-! ### The plain report -/

theorem solidEnd (s : String) {end_ : String} {c : Char} (one : end_.toList = [c])
    (visible : Text.isBlank c = false) : Solid (s ++ end_).toList :=
  ⟨s.toList, c, by rw [String.toList_append, one], visible⟩

theorem paintSolid (a : Text.Attribute) (s : String) : Solid (Text.paint a s).toList := by
  have closing : Solid (Text.sgr a.off).toList := solidEnd _ (c := 'm') rfl (by decide)
  rw [Text.paint, String.toList_append]
  exact Text.solidBehind closing _

theorem solidInk (colors : Bool) (as : List Text.Attribute) {s : String} (solid : Solid s.toList) :
    Solid (Text.ink colors as s).toList := by
  cases colors with
  | false => exact solid
  | true =>
    cases as with
    | nil => exact solid
    | cons a as => exact paintSolid a _

theorem labelSolid (colors : Bool) (s : Severity) : Solid (Plain.label colors s).toList :=
  solidInk colors _ (solidEnd _ (c := ']') rfl (by decide))

/- A row is its place, which may have spaces at the end, its label and what is told of it. -/
def Plain.place (f : Finding) : String :=
  "  line " ++ Text.decimal f.line ++ ", column " ++ Text.decimal f.column ++ " "

def Plain.remark (f : Finding) : String :=
  " " ++ f.text ++
    (match f.rule with
    | some rule => " (" ++ rule ++ ")"
    | none => "") ++ "\n"

theorem rowParts (colors : Bool) (f : Finding) :
    Text.line (Plain.row colors f) =
      Plain.place f ++ Plain.label colors f.severity ++ Plain.remark f := by
  cases rule : f.rule <;>
    simp only [Text.line, Plain.row, Plain.place, Plain.remark, rule, String.append_assoc]

theorem placeFree (f : Finding) : Text.EscapeFree (Plain.place f) := by
  have number (n : Nat) : Text.EscapeFree (Text.decimal n) := lacksNumber (by decide) n
  have opening : Text.EscapeFree "  line " := by decide
  exact (((opening.append (number _)).append (by decide)).append (number _)).append (by decide)

theorem remarkFree {f : Finding} (free : f.EscapeFree) : Text.EscapeFree (Plain.remark f) := by
  have opening : Text.EscapeFree " " := by decide
  exact ((opening.append free.text).append (ruleLacks (by decide) free.lacks)).append (by decide)

theorem rowTailed {f : Finding} (free : f.EscapeFree) :
    Tailed (Text.line (Plain.row true f)).toList (Text.line (Plain.row false f)).toList := by
  have text : Text.EscapeFree ("[" ++ f.severity.label ++ "]") := by cases f.severity <;> decide
  have label : Colored (Plain.label true f.severity).toList (Plain.label false f.severity).toList :=
    Text.inkColored _ text
  have head := Text.coloredAppend (Text.coloredSelf (placeFree f)) label
  have solid (colors : Bool) := Text.solidBehind (labelSolid colors f.severity)
    (Plain.place f).toList
  simp only [rowParts, String.toList_append]
  exact .behind head (solid true) (solid false) (remarkFree free)

theorem blockTailed {f : FileReport} (listed : f.isListed = true) (free : f.EscapeFree) :
    Tailed (Text.unlines (Plain.block directory true f)).toList
      (Text.unlines (Plain.block directory false f)).toList := by
  have filled : f.findings ≠ [] := by
    intro empty
    rw [FileReport.isListed, empty] at listed
    contradiction
  have header : Colored (Text.line (Plain.header directory true f.file)).toList
      (Text.line (Plain.header directory false f.file)).toList := by
    rw [Text.line, Text.line, String.toList_append, String.toList_append]
    exact Text.coloredAppend (Text.inkColored _ (free.lacks directory).path)
      (Text.coloredSelf (by decide))
  have rows := Text.tailedFlatMap filled fun x member => rowTailed (free.findings x member)
  have written (colors : Bool) : (Text.unlines (Plain.block directory colors f)).toList =
      (Text.line (Plain.header directory colors f.file)).toList ++
        f.findings.flatMap fun x => (Text.line (Plain.row colors x)).toList := by
    simp [Text.unlines, Plain.block, List.flatMap_map, Function.comp_def]
  rw [written, written]
  exact Text.tailedBehind header rows

theorem plainTrimmed (directory : String) (free : r.EscapeFree) :
    Trimmed (Plain.render directory true r) (Plain.render directory false r) := by
  have written (colors : Bool) : (Plain.render directory colors r).toList =
      (r.filter FileReport.isListed).flatMap
        fun f => (Text.unlines (Plain.block directory colors f)).toList := by
    simp [Plain.render, Plain.lines, Text.unlines, List.flatMap_map, List.map_flatMap,
      List.flatMap_assoc]
  by_cases silent : r.filter FileReport.isListed = []
  · have blank (colors : Bool) : Plain.render directory colors r = "" := by
      rw [Plain.render, Plain.lines, silent]
      rfl
    rw [blank, blank]
    exact Text.freeTrimmed (by decide)
  · refine Text.tailedTrimmed ?_
    rw [written, written]
    refine Text.tailedFlatMap silent fun f member => ?_
    obtain ⟨there, listed⟩ := List.mem_filter.mp member
    exact blockTailed listed (free f there)

end Report
end LintGate
