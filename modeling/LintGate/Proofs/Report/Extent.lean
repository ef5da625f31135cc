import LintGate.Proofs.Json.Extent
import LintGate.Proofs.Report.Native
import LintGate.Proofs.Text.Trimming
/-! Where a report ends. A text that is read as a report and goes on in any visible way is not
read as one, and neither is one that breaks off: only white space can be added or cut away. -/
namespace LintGate.Report.Native
open LintGate.Json (Value)
open LintGate.Json.Token (isSpace)

theorem spaceBlank {c : Char} (space : isSpace c = true) : Text.isBlank c = true := by
  simp only [isSpace, Bool.or_eq_true, beq_iff_eq] at space
  rcases space with ((rfl | rfl) | rfl) | rfl <;> decide

theorem filesArray {s : String} {files : List File} (form : files? s = some files) :
    ∃ items, Value.read? (Text.trim s) = some (.array items) := by
  obtain ⟨v, found, listed⟩ := Option.bind_eq_some_iff.mp form
  cases v with
  | array items => exact ⟨items, found⟩
  | null | boolean | number | text | illFormed | object => cases listed

/- The empty text is no report, so something visible stands at the beginning of one. -/
theorem arrayVisible {s : String} {items : List Value}
    (found : Value.read? s = some (.array items)) : s ≠ "" := by
  rintro rfl
  cases found

/- Whatever is between the two and at the end of what is seen behind it comes into the text. -/
theorem trimGoesOn {d q : String} (filled : Text.trim d ≠ "") (seen : Text.isBlankText q = false) :
    ∃ more, Text.trim (d ++ q) = String.ofList ((Text.trim d).toList ++ more) ∧
      Text.Solid more := by
  obtain ⟨before, after, split, blank, _, visible⟩ := Text.trimSplit d
  obtain ⟨tail, parted, rest⟩ := Text.endSplit q.toList
  have solid : Text.Solid (Text.dropEndWhile Text.isBlank q.toList) := by
    obtain ⟨c, member, shown⟩ := List.all_eq_false.mp seen
    exact Text.trimSolid member (Bool.not_eq_true _ ▸ shown)
  obtain ⟨init, last, shape, lastShown⟩ := solid
  obtain ⟨first, inside, begins⟩ :=
    List.exists_cons_of_ne_nil fun empty => filled (String.toList_eq_nil_iff.mp empty)
  have whole : (d ++ q).toList =
      before ++ ((Text.trim d).toList ++ (after ++ (init ++ [last])) ++ tail) := by
    rw [String.toList_append, split, parted, shape]
    simp
  have bounded : (Text.trim d).toList ++ (after ++ (init ++ [last])) =
      first :: ((inside ++ (after ++ init)) ++ [last]) := by
    rw [begins]
    simp
  refine ⟨after ++ (init ++ [last]), ?_, after ++ init, last, by simp, lastShown⟩
  rw [← String.ofList_toList (s := d ++ q), whole]
  exact trimPadded blank rest bounded (visible first (by simp [begins])) lastShown

theorem filesExtent {d q : String} {files others : List File} (first : files? d = some files)
    (whole : files? (d ++ q) = some others) : Text.isBlankText q = true := by
  obtain ⟨items, found⟩ := filesArray first
  obtain ⟨_, again⟩ := filesArray whole
  cases seen : Text.isBlankText q with
  | true => rfl
  | false =>
    obtain ⟨more, goesOn, init, c, rfl, visible⟩ := trimGoesOn (arrayVisible found) seen
    rw [goesOn] at again
    rw [← String.ofList_toList (s := Text.trim d)] at found
    have space := Value.arrayExtent found again c (by simp)
    exact absurd (spaceBlank space) (by simp [visible])

theorem filesPadded (d : String) {q : String} (blank : Text.isBlankText q = true) :
    files? (d ++ q) = files? d := by
  have same : Text.trim (d ++ q) = Text.trim d := by
    have all : ∀ c ∈ q.toList, Text.isBlank c = true := List.all_eq_true.mp blank
    rw [Text.trim, Text.trim, Text.trimEnd, Text.trimEnd, Text.trimStart, Text.trimStart,
      String.toList_append, String.toList_ofList, String.toList_ofList, List.dropWhile_append]
    split
    · rename_i nothing
      rw [Text.dropWhileNone.mpr blank, List.isEmpty_iff.mp nothing]
    · rw [Text.trimBlankEnd all]
  rw [files?, files?, same]

/- What becomes of a report when a text is put behind it, and what was there before it was. -/
structure Bounded (d q : String) : Prop where
  fixed : ∀ r others, read d = .ok r → read (d ++ q) = .ok others →
    Text.isBlankText q = true ∧ others = r
  cut : Text.isBlankText q = false → ∀ r, read (d ++ q) = .ok r → read d = .error .malformed
  extended : Text.isBlankText q = false → ∀ r, read d = .ok r → read (d ++ q) = .error .malformed
  padded : Text.isBlankText q = true → read (d ++ q) = read d

theorem reportBounded (d q : String) : Bounded d q := by
  have padded (blank : Text.isBlankText q = true) : read (d ++ q) = read d := by
    rw [read, read, filesPadded d blank]
  refine ⟨?_, ?_, ?_, padded⟩
  · intro r others first whole
    obtain ⟨files, form, _⟩ := readAccepted first
    obtain ⟨_, again, _⟩ := readAccepted whole
    have blank := filesExtent form again
    rw [padded blank, first] at whole
    exact ⟨blank, (Except.ok.inj whole).symm⟩
  · intro seen r whole
    obtain ⟨_, again, _⟩ := readAccepted whole
    cases form : files? d with
    | none => exact readMalformed form
    | some files => exact absurd (filesExtent form again) (by simp [seen])
  · intro seen r first
    obtain ⟨_, form, _⟩ := readAccepted first
    cases again : files? (d ++ q) with
    | none => exact readMalformed again
    | some files => exact absurd (filesExtent form again) (by simp [seen])

end LintGate.Report.Native
