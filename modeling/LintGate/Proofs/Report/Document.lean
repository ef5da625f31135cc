import LintGate.Proofs.Report.Native
import LintGate.Report.Document
import LintGate.Text.Layout
/-! The report as a document can be read back: a reader that takes just the keys of the document,
in their order, and nothing else returns the report and the totals. -/
namespace LintGate.Report.Document
open LintGate.Json (Value)
open LintGate.Json.Value (Lawful lawfulFields lawfulNat)
open LintGate.Report.Native (text? nullable boolean? list?)

/-! ### A strict reader -/

def exactly? (names : List String) : Value → Option (List Value)
  | .object members =>
      if members.map Prod.fst = names.map some then some (members.map Prod.snd) else none
  | _ => none

def severity? (v : Value) : Option Severity := do
  let label ← text? v
  [Severity.warning, Severity.error].find? fun s => s.label == label

def finding? (v : Value) : Option Finding := do
  match ← exactly? ["line", "column", "severity", "text", "rule", "fatal"] v with
  | [line, column, severity, text, rule, fatal] =>
      some { line := ← line.natural?
             column := ← column.natural?
             severity := ← severity? severity
             text := ← text? text
             rule := ← nullable text? rule
             fatal := ← boolean? fatal }
  | _ => none

def file? (v : Value) : Option FileReport := do
  match ← exactly? ["file", "error_count", "warning_count", "messages"] v with
  | [file, errors, warnings, messages] =>
      some { file := ← text? file
             errors := ← errors.natural?
             warnings := ← warnings.natural?
             findings := ← list? finding? messages }
  | _ => none

def summary? (v : Value) : Option Summary := do
  match ← exactly? ["errors", "warnings", "files"] v with
  | [errors, warnings, files] =>
      some { errors := ← errors.natural?
             warnings := ← warnings.natural?
             files := ← files.natural? }
  | _ => none

def document? (v : Value) : Option (Report × Summary) := do
  match ← exactly? ["results", "summary"] v with
  | [results, summary] => some (← list? file? results, ← summary? summary)
  | _ => none

def read? (s : String) : Option (Report × Summary) := (Value.read? s).bind document?

/-! ### Reading back -/

theorem exactlyRead (fields : List (String × Value)) :
    exactly? (fields.map Prod.fst) (.ofFields fields) = some (fields.map Prod.snd) := by
  simp [exactly?, Value.ofFields, Function.comp_def]

theorem numberRead (n : Nat) : (Value.ofNat n).natural? = some n := Text.decimalRead n

theorem severityRead (s : Severity) : severity? (.text s.label) = some s := by
  cases s with
  | warning => rfl
  | error => rfl

theorem findingRead (f : Finding) : finding? (finding f) = some f := by
  have fields : exactly? ["line", "column", "severity", "text", "rule", "fatal"] (finding f) = _ :=
    exactlyRead _
  obtain ⟨line, column, severity, text, rule, fatal⟩ := f
  cases rule with
  | none => simp [finding?, fields, numberRead, severityRead, text?, nullable, boolean?]
  | some rule => simp [finding?, fields, numberRead, severityRead, text?, nullable, boolean?]

theorem listRead {α : Type} {read : Value → Option α} {write : α → Value}
    (reads : ∀ x, read (write x) = some x) (xs : List α) :
    list? read (.array (xs.map write)) = some xs := by
  show (xs.map write).mapM read = some xs
  exact elementsRead fun x _ => reads x

theorem fileRead (f : FileReport) : file? (file f) = some f := by
  have fields : exactly? ["file", "error_count", "warning_count", "messages"] (file f) = _ :=
    exactlyRead _
  simp [file?, fields, numberRead, text?, listRead findingRead]

theorem summaryRead (s : Summary) : summary? (summary s) = some s := by
  have fields : exactly? ["errors", "warnings", "files"] (summary s) = _ := exactlyRead _
  simp [summary?, fields, numberRead]

theorem documentRead (r : Report) (s : Summary) : document? (document r s) = some (r, s) := by
  have fields : exactly? ["results", "summary"] (document r s) = _ := exactlyRead _
  simp [document?, fields, listRead fileRead, summaryRead]

/-! ### The text -/

theorem findingLawful (f : Finding) : Lawful (finding f) := by
  obtain ⟨line, column, severity, text, rule, fatal⟩ := f
  refine lawfulFields ?_
  cases rule with
  | none => simp [lawfulNat, Lawful.text, Lawful.boolean, Lawful.null]
  | some rule => simp [lawfulNat, Lawful.text, Lawful.boolean]

theorem arrayLawful {α : Type} {write : α → Value} (lawful : ∀ x, Lawful (write x)) (xs : List α) :
    Lawful (.array (xs.map write)) := by
  refine .array ?_
  intro v member
  obtain ⟨x, _, rfl⟩ := List.mem_map.mp member
  exact lawful x

theorem fileLawful (f : FileReport) : Lawful (file f) := by
  refine lawfulFields ?_
  simp [lawfulNat, Lawful.text, arrayLawful findingLawful]

theorem summaryLawful (s : Summary) : Lawful (summary s) := by
  refine lawfulFields ?_
  simp [lawfulNat]

theorem documentLawful (r : Report) (s : Summary) : Lawful (document r s) := by
  refine lawfulFields ?_
  simp [arrayLawful fileLawful, summaryLawful]

theorem readRendered (r : Report) (s : Summary) : read? (Text.line (render r s)) = some (r, s) := by
  have value : Value.read? (Text.line (render r s)) = some (document r s) :=
    Value.readPretty (documentLawful r s)
  rw [read?, value, Option.bind_some]
  exact documentRead r s

/- The document ends in its brace, so no white space is trimmed from its end. -/
theorem renderTrimmed (r : Report) (s : Summary) : Text.trimEnd (render r s) = render r s := by
  obtain ⟨inside, shape⟩ := Json.Grammar.objectBraced (Value.prettySpells (documentLawful r s) 0)
  have shape : (render r s).toList = '{' :: inside ++ ['}'] := shape
  rw [Text.trimEnd, shape, Text.dropEndWhileLast _ _ _ rfl, ← shape, String.ofList_toList]

theorem renderFilled (r : Report) (s : Summary) : render r s ≠ "" := by
  obtain ⟨inside, shape⟩ := Json.Grammar.objectBraced (Value.prettySpells (documentLawful r s) 0)
  intro empty
  have shape : (render r s).toList = '{' :: (inside ++ ['}']) := shape
  simp [empty] at shape

end LintGate.Report.Document
