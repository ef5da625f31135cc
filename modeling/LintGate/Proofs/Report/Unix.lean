import LintGate.Proofs.Report.Rows
import LintGate.Proofs.Run.Streams
import LintGate.Proofs.Stages
import LintGate.Proofs.Text.Trimming
import LintGate.Report.Unix
/-! The unix style read back. A path ends at the first colon of its row and the tag begins at the
last opening bracket, so that nothing in the text between them can be taken for either. -/
namespace LintGate

/- Printing leaves lines as they are if there is something to be seen at the end of the last. -/
theorem Console.printedUnlines (k : Console) {ls : List String}
    (visible : ∀ l ∈ ls.getLast?, Text.Solid l.toList) :
    k.output .out [.report (Text.unlines ls)] = Text.unlines ls := by
  rw [outputWrites, writesReport, if_pos rfl]
  rcases List.eq_nil_or_concat ls with rfl | ⟨init, l, rfl⟩
  · rfl
  · have solid : Text.Solid ((Text.unlines init).toList ++ l.toList) :=
      Text.solidBehind (visible l (by simp)) _
    have ended : Text.unlines (init ++ [l]) = Text.unlines init ++ l ++ "\n" := by
      simp [Text.unlines, Text.line, String.join_append, String.append_assoc]
    have trimmed : Text.trimEnd (Text.unlines (init ++ [l])) = Text.unlines init ++ l := by
      have newline : "\n".toList = ['\n'] := rfl
      have nothing : Text.dropEndWhile Text.isBlank ['\n'] = [] := rfl
      rw [Text.trimEnd, ended, String.toList_append, String.toList_append, newline,
        Text.trimBehind solid, nothing, List.append_nil, ← String.toList_append,
        String.ofList_toList]
    have filled : Text.unlines init ++ l ≠ "" := by
      obtain ⟨before, c, shape, _⟩ := solid
      intro empty
      rw [← String.toList_append, empty] at shape
      simp at shape
    rw [List.concat_eq_append, reportLines, trimmed, if_neg filled, ended, Text.line,
      String.join_cons, String.join_nil, String.append_empty]

namespace Report.Unix
open Text (Lacks Solid cut? cutLast? cutFirst cutLast cutNone lacksDecimal)

/-! ### A reader -/

structure Entry where
  path : String
  line : Nat
  column : Nat
  severity : Severity
  text : String
  rule : Option String
  deriving DecidableEq, Repr

def entry (directory file : String) (f : Finding) : Entry :=
  ⟨Path.shown directory file, f.line, f.column, f.severity, f.text, f.rule⟩

def entries (directory : String) (r : Report) : List Entry :=
  r.flatMap fun f => f.findings.map (entry directory f.file)

/- What stands between the brackets. A slash comes with a rule, even with an empty one. -/
def mark? (cs : List Char) : Option (Severity × Option String) :=
  match cut? '/' cs with
  | some (title, rule) =>
      (severity? Severity.title title).map fun s => (s, some (String.ofList rule))
  | none => (severity? Severity.title cs).map fun s => (s, none)

def row? (l : String) : Option Entry := do
  let (path, rest) ← cut? ':' l.toList
  let (line, rest) ← cut? ':' rest
  let (column, rest) ← cut? ':' rest
  let (told, tag) ← cutLast? '[' rest
  let (_, told) ← cut? ' ' told
  let (text, _) ← cutLast? ' ' told
  let (mark, _) ← cutLast? ']' tag
  let (severity, rule) ← mark? mark
  some { path := String.ofList path
         line := ← number? line
         column := ← number? column
         severity
         text := String.ofList text
         rule }

/- What comes behind the rows: how many problems there are, if there are any. -/
def ending? : List String → Option Nat
  | [] => some 0
  | ["", count] => do
      let (number, _) ← cut? ' ' count.toList
      number? number
  | _ => none

def read? (s : String) : Option (List Entry × Nat) := do
  let entries ← ((Text.linesOf s).takeWhile (· ≠ "")).mapM row?
  let problems ← ending? ((Text.linesOf s).dropWhile (· ≠ ""))
  some (entries, problems)

structure Legible (directory : String) (f : FileReport) : Prop where
  path : Text.OneLine (Path.shown directory f.file) ∧ Lacks ':' (Path.shown directory f.file)
  text : ∀ x ∈ f.findings, Text.OneLine x.text
  rule : ∀ x ∈ f.findings, ∀ rule ∈ x.rule, Text.OneLine rule ∧ Lacks '[' rule

instance (directory : String) (f : FileReport) : Decidable (Legible directory f) :=
  decidable_of_iff
    ((Text.OneLine (Path.shown directory f.file) ∧ Lacks ':' (Path.shown directory f.file)) ∧
      (∀ x ∈ f.findings, Text.OneLine x.text) ∧
        ∀ x ∈ f.findings, ∀ rule ∈ x.rule, Text.OneLine rule ∧ Lacks '[' rule)
    ⟨fun ⟨path, text, rule⟩ => ⟨path, text, rule⟩, fun ⟨path, text, rule⟩ => ⟨path, text, rule⟩⟩

variable {directory file : String} {f : Finding} {r : Report}

/-! ### Rows -/

def mark (f : Finding) : String :=
  f.severity.title ++ match f.rule with
    | some rule => "/" ++ rule
    | none => ""

theorem tagMark (f : Finding) : (tag f).toList = '[' :: ((mark f).toList ++ [']']) := by
  have opening : "[".toList = ['['] := rfl
  have closing : "]".toList = [']'] := rfl
  cases stated : f.rule <;> simp [tag, mark, stated, opening, closing]

theorem titleLacks {c : Char} (small : c.isAlpha = false) (s : Severity) :
    c ∉ s.title.toList := by
  have letters : s.title.toList.all Char.isAlpha = true := by cases s <;> rfl
  intro member
  rw [List.all_eq_true.mp letters c member] at small
  contradiction

theorem markTold (f : Finding) : mark? (mark f).toList = some (f.severity, f.rule) := by
  have slash : "/".toList = ['/'] := rfl
  have lacks : '/' ∉ f.severity.title.toList := titleLacks rfl _
  cases stated : f.rule with
  | none =>
    simp [mark, mark?, stated, cutNone lacks, titleTold]
  | some rule =>
    simp [mark, mark?, stated, slash, cutFirst lacks, titleTold]

theorem markLacks (lacks : ∀ rule ∈ f.rule, Lacks '[' rule) : '[' ∉ (mark f).toList := by
  have title : '[' ∉ f.severity.title.toList := titleLacks rfl _
  have slash : "/".toList = ['/'] := rfl
  cases stated : f.rule with
  | none => simpa [mark, stated] using title
  | some rule =>
    have rule : '[' ∉ rule.toList := lacks rule stated
    simp [mark, stated, slash, title, rule]

theorem rowParts (directory file : String) (f : Finding) :
    (row directory file f).toList = (Path.shown directory file).toList ++ ':' ::
      ((Text.decimal f.line).toList ++ ':' :: ((Text.decimal f.column).toList ++ ':' ::
        (' ' :: (f.text.toList ++ [' ']) ++ '[' :: ((mark f).toList ++ [']'])))) := by
  have colon : ":".toList = [':'] := rfl
  have gap : ": ".toList = [':', ' '] := rfl
  have space : " ".toList = [' '] := rfl
  simp [row, tagMark, colon, gap, space]

theorem rowTold (path : Lacks ':' (Path.shown directory file))
    (rule : ∀ rule ∈ f.rule, Lacks '[' rule) :
    row? (row directory file f) = some (entry directory file f) := by
  have line := lacksDecimal (c := ':') rfl f.line
  have column := lacksDecimal (c := ':') rfl f.column
  have tag : '[' ∉ (mark f).toList ++ [']'] := by
    simp [markLacks rule]
  have space : cut? ' ' (' ' :: (f.text.toList ++ [' '])) = some ([], f.text.toList ++ [' ']) :=
    cutFirst List.not_mem_nil _
  rw [row?, rowParts, cutFirst path, Option.bind_eq_bind, Option.bind_some]
  simp only [cutFirst line, cutFirst column, cutLast tag, space,
    cutLast List.not_mem_nil, markTold, numberTold, Option.bind_eq_bind, Option.bind_some,
    String.ofList_toList, entry]

theorem rowSolid (directory file : String) (f : Finding) : Solid (row directory file f).toList := by
  rw [rowParts]
  exact ⟨(Path.shown directory file).toList ++ ':' :: ((Text.decimal f.line).toList ++ ':' ::
    ((Text.decimal f.column).toList ++ ':' ::
      (' ' :: (f.text.toList ++ [' ']) ++ '[' :: (mark f).toList))), ']', by simp, rfl⟩

/-! ### The whole -/

theorem Legible.lacks {f : FileReport} (legible : Legible directory f) : f.Lacks '\n' directory :=
  ⟨legible.path.1, fun x found =>
    ⟨legible.text x found, fun rule stated => (legible.rule x found rule stated).1⟩⟩

theorem rowsTold (legible : ∀ f ∈ r, Legible directory f) :
    (rows (row directory) r).mapM row? = some (entries directory r) := by
  have pairs {α : Type} (g : FileReport → Finding → α) :
      (r.flatMap fun f => f.findings.map (g f)) =
        (r.flatMap fun f => f.findings.map fun x => (f, x)).map fun (f, x) => g f x := by
    simp [List.map_flatMap, Function.comp_def]
  rw [rows, entries, pairs fun f => row directory f.file, pairs fun f => entry directory f.file]
  refine elementsGive ?_
  rintro ⟨f, x⟩ member
  obtain ⟨g, there, inside⟩ := List.mem_flatMap.mp member
  obtain ⟨y, found, same⟩ := List.mem_map.mp inside
  cases same
  have safe := legible f there
  exact rowTold safe.path.2 fun rule stated => (safe.rule x found rule stated).2

theorem countTold (r : Report) : ending? (countLines r) = some (Summary.ofReport r).problems := by
  have space : " ".toList = [' '] := rfl
  unfold countLines
  dsimp only
  split
  · rename_i some
    have digits := lacksDecimal (c := ' ') rfl (Summary.ofReport r).problems
    simp [ending?, Text.plural, space, cutFirst digits, numberTold]
  · rename_i none
    rw [ending?, Nat.eq_zero_of_not_pos none]

theorem countSolid (r : Report) : ∀ l ∈ (countLines r).getLast?, Solid l.toList := by
  unfold countLines
  dsimp only
  split
  · intro l last
    have count : l = Text.plural (Summary.ofReport r).problems "problem" := by
      simpa using last.symm
    rw [count, Text.plural, String.toList_append]
    refine Text.solidBehind ?_ _
    split
    · exact ⟨"proble".toList, 'm', rfl, rfl⟩
    · exact ⟨"problem".toList, 's', rfl, rfl⟩
  · simp

theorem linesSolid (directory : String) (r : Report) :
    ∀ l ∈ (lines directory r).getLast?, Solid l.toList := by
  intro l last
  rw [lines, List.getLast?_append] at last
  cases count : (countLines r).getLast? with
  | some total =>
    rw [count, Option.some_or] at last
    exact countSolid r l (count ▸ last)
  | none =>
    rw [count, Option.none_or] at last
    obtain ⟨f, _, inside⟩ := List.mem_flatMap.mp (List.mem_of_getLast? last)
    obtain ⟨x, _, rfl⟩ := List.mem_map.mp inside
    exact rowSolid directory f.file x

theorem readRendered (legible : ∀ f ∈ r, Legible directory f) :
    read? (render directory r) = some (entries directory r, (Summary.ofReport r).problems) := by
  have split : Text.linesOf (render directory r) = lines directory r :=
    Text.linesUnlines (linesLack (by decide) fun f member => (legible f member).lacks)
  -- The empty line that begins the count is the first one there is.
  have filled : ∀ l ∈ rows (row directory) r, decide (l ≠ "") = true := by
    intro l member
    obtain ⟨f, _, inside⟩ := List.mem_flatMap.mp member
    obtain ⟨x, _, rfl⟩ := List.mem_map.mp inside
    obtain ⟨before, c, shape, _⟩ := rowSolid directory f.file x
    rw [decide_eq_true_eq]
    intro empty
    simp [empty] at shape
  have count : (countLines r).takeWhile (· ≠ "") = [] ∧
      (countLines r).dropWhile (· ≠ "") = countLines r := by
    unfold countLines
    dsimp only
    split <;> simp
  rw [read?, split, lines, List.takeWhile_append_of_pos filled, List.dropWhile_append_of_pos filled,
    count.1, count.2, List.append_nil, rowsTold legible, countTold]
  rfl

/- From a text that shows a report its entries are read off, and the number of its problems; no
other report with other entries has that text, printed or not. -/
structure Recoverable (directory : String) (r : Report) (text : String) : Prop where
  read : read? text = some (entries directory r, (Summary.ofReport r).problems)
  only : ∀ directory' r', (∀ f ∈ r', Legible directory' f) →
    render directory' r' = text ∨
      (∃ k : Console, k.output .out [.report (render directory' r')] = text) →
    entries directory' r' = entries directory r ∧
      (Summary.ofReport r').problems = (Summary.ofReport r).problems

/- Texts that look like a row, that are empty or blank, and a rule that is empty beside none. -/
def imitating : Report :=
  [⟨"/work/a.js", 1, 2, [
    ⟨1, 2, .error, "b.js:3:4: no end [Warning/x]", some "a]/b", true⟩,
    ⟨0, 0, .warning, "", some "", false⟩,
    ⟨7, 1, .warning, " ", none, false⟩]⟩]

end Report.Unix
end LintGate
