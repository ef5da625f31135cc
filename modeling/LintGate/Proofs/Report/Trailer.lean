import LintGate.Proofs.Report.Listing
import LintGate.Proofs.Report.Totals
/-! The count behind the findings of a report. It is there just where a run in which warnings count
fails, and it tells the numbers that the verdict of that run tells. The lines before it come from the
findings alone, so that nothing is left of a report only if it has neither findings nor counts. -/
namespace LintGate

def FileReport.uncounted (f : FileReport) : FileReport := { f with errors := 0, warnings := 0 }

def Report.uncounted (r : Report) : Report := r.map FileReport.uncounted

namespace Report
open Text (cut? cutFirst lacksDecimal)
open LintGate.Path (beyond? beyondAppend)

/-! ### Counts read back -/

/- A number of things, and what stands behind it. One of them has the noun as it is, and any other
number of them the noun with an `s`. -/
def counted? (noun : String) (cs : List Char) : Option (Nat × List Char) := do
  let (digits, rest) ← cut? ' ' cs
  let n ← number? digits
  let rest ← beyond? (if n = 1 then noun else noun ++ "s").toList rest
  some (n, rest)

def kinds? (cs : List Char) : Option ((Nat × Nat) × List Char) := do
  let (errors, rest) ← counted? "error" cs
  let rest ← beyond? ", ".toList rest
  let (warnings, rest) ← counted? "warning" rest
  some ((errors, warnings), rest)

/- The errors and the warnings for which a run has failed. -/
def failure? (line : String) : Option (Nat × Nat) := do
  let rest ← beyond? "ESLint failed: ".toList line.toList
  let (kinds, rest) ← kinds? rest
  if rest = [] then some kinds else none

/- All problems of a report and, in the stylish one, the errors and the warnings among them. -/
def problems? (line : String) : Style → Option (Nat × Option (Nat × Nat))
  | .stylish => do
      let rest ← beyond? "✖ ".toList line.toList
      let (problems, rest) ← counted? "problem" rest
      let rest ← beyond? " (".toList rest
      let (kinds, rest) ← kinds? rest
      if rest = [')'] then some (problems, some kinds) else none
  | .compact | .unix => do
      let (problems, rest) ← counted? "problem" line.toList
      if rest = [] then some (problems, none) else none

variable {r : Report}

theorem countedTold (n : Nat) (noun : String) (rest : List Char) :
    counted? noun ((Text.plural n noun).toList ++ rest) = some (n, rest) := by
  have space : " ".toList = [' '] := rfl
  have digits := lacksDecimal (c := ' ') rfl n
  have parts : (Text.plural n noun).toList ++ rest = (Text.decimal n).toList ++ ' ' ::
      ((if n = 1 then noun else noun ++ "s").toList ++ rest) := by
    simp [Text.plural, space]
  simp only [counted?, parts, cutFirst digits, numberTold, beyondAppend, Option.bind_eq_bind,
    Option.bind_some]

theorem kindsTold (errors warnings : Nat) (rest : List Char) :
    kinds? ((Text.plural errors "error" ++ ", " ++ Text.plural warnings "warning").toList ++ rest) =
      some ((errors, warnings), rest) := by
  simp only [kinds?, String.toList_append, List.append_assoc, countedTold, beyondAppend,
    Option.bind_eq_bind, Option.bind_some]

theorem failureTold (s : Summary) :
    failure? (Event.failedLine s .warnings) = some (s.errors, s.warnings) := by
  have words : Event.failedLine s .warnings = "ESLint failed: " ++
      Text.plural s.errors "error" ++ ", " ++ Text.plural s.warnings "warning" := rfl
  have told := kindsTold s.errors s.warnings []
  rw [List.append_nil, String.append_assoc] at told
  rw [failure?, words, String.append_assoc, String.append_assoc, String.toList_append, beyondAppend,
    Option.bind_eq_bind, Option.bind_some, told]
  rfl

/-! ### Styles -/

/- The lines in front of the count. -/
def body (directory : String) (colors : Bool) (r : Report) : Style → List String
  | .stylish => (r.filter FileReport.isListed).flatMap (Stylish.block directory colors)
  | .compact => rows (Compact.row directory) r
  | .unix => rows (Unix.row directory) r

def countLine (colors : Bool) (s : Summary) : Style → String
  | .stylish =>
      Text.ink colors [.bold, if s.errors > 0 then .red else .yellow] (Stylish.count s)
  | .compact | .unix => Text.plural s.problems "problem"

theorem renderSplit (directory : String) (colors : Bool) (r : Report) (style : Style) :
    style.render directory colors r = Text.unlines (r.body directory colors style) ++
      Text.unlines (ending (Summary.ofReport r) (countLine colors (Summary.ofReport r) style)) := by
  rw [← Text.unlinesAppend]
  cases style <;> rfl

theorem bodyUncounted (directory : String) (colors : Bool) (r : Report) (style : Style) :
    r.uncounted.body directory colors style = r.body directory colors style := by
  cases style with
  | stylish =>
    simp only [body, uncounted, List.filter_map, List.flatMap_map]
    rfl
  | compact | unix =>
    simp only [body, uncounted, rows, List.flatMap_map]
    rfl

theorem bodyNothing (directory : String) (colors : Bool) (style : Style) :
    r.body directory colors style = [] ↔ ∀ f ∈ r, f.findings = [] := by
  cases style with
  | stylish => simp [body, Stylish.block, FileReport.isListed]
  | compact | unix => simp [body, rows]

theorem strippedCount (colors : Bool) (s : Summary) (style : Style) :
    Text.strip (countLine colors s style) = countLine false s style := by
  cases style with
  | stylish => exact Text.strippedInk colors _ (Stylish.countLacks (by decide) s)
  | compact | unix => exact Text.strippedInk false [] (Text.lacksPlural (by decide) _ rfl)

theorem problemsTold (s : Summary) (style : Style) :
    problems? (countLine false s style) style =
      some (s.problems, if style = .stylish then some (s.errors, s.warnings) else none) := by
  cases style with
  | stylish =>
    have parts : (Stylish.count s).toList = "✖ ".toList ++
        ((Text.plural s.problems "problem").toList ++ (" (".toList ++
          ((Text.plural s.errors "error" ++ ", " ++ Text.plural s.warnings "warning").toList ++
            [')']))) := by
      simp [Stylish.count]
    simp only [problems?, countLine, Text.inkPlain, parts, beyondAppend, countedTold, kindsTold,
      Option.bind_eq_bind, Option.bind_some, if_pos]
  | compact | unix =>
    have told := countedTold s.problems "problem" []
    rw [List.append_nil] at told
    simp [problems?, countLine, told]

/-! ### The end of a report -/

theorem uncountedProblems (r : Report) : (Summary.ofReport r.uncounted).problems = 0 := by
  rw [Summary.problemsNone, uncounted, List.forall_mem_map]
  exact fun f member => ⟨rfl, rfl⟩

theorem endingNothing {s : Summary} {line : String} : ending s line = [] ↔ s.problems = 0 := by
  unfold ending
  split <;> simp <;> omega

/- Nothing, or an empty line and one that tells of the counts by which a run in which warnings
count has failed. -/
inductive Trailer (style : Style) (s : Summary) : String → Prop where
  | passed (passes : s.fails .warnings = false) : Trailer style s ""
  | failed {line errors warnings} (fails : s.fails .warnings = true)
      (verdict : failure? (Event.failedLine s .warnings) = some (errors, warnings))
      (told : problems? (Text.strip line) style =
        some (errors + warnings, if style = .stylish then some (errors, warnings) else none)) :
      Trailer style s (Text.unlines ["", line])

/- How a report ends, and when there is none. -/
structure Concludes (directory : String) (colors : Bool) (r : Report) (style : Style) : Prop where
  trailer : ∃ trailer, Trailer style (Summary.ofReport r) trailer ∧
    style.render directory colors r = style.render directory colors r.uncounted ++ trailer
  nothing : style.render directory colors r = "" ↔
    ∀ f ∈ r, f.findings = [] ∧ f.errors = 0 ∧ f.warnings = 0

theorem endingTrailer (colors : Bool) (s : Summary) (style : Style) :
    Trailer style s (Text.unlines (ending s (countLine colors s style))) := by
  cases verdict : s.fails .warnings with
  | false =>
    have none : s.problems = 0 := by simpa [Summary.fails] using verdict
    rw [endingNothing.mpr none]
    exact .passed verdict
  | true =>
    have some : 0 < s.problems := by simpa [Summary.fails] using verdict
    rw [ending, if_pos some]
    refine .failed verdict (failureTold s) ?_
    rw [strippedCount, problemsTold]
    rfl

theorem renderUncounted (directory : String) (colors : Bool) (r : Report) (style : Style) :
    style.render directory colors r.uncounted = Text.unlines (r.body directory colors style) := by
  rw [renderSplit, bodyUncounted, endingNothing.mpr (uncountedProblems r)]
  exact String.append_empty

theorem renderNothing (directory : String) (colors : Bool) (r : Report) (style : Style) :
    style.render directory colors r = "" ↔
      ∀ f ∈ r, f.findings = [] ∧ f.errors = 0 ∧ f.warnings = 0 := by
  rw [renderSplit, ← Text.unlinesAppend, Text.unlinesNothing, List.append_eq_nil_iff, bodyNothing,
    endingNothing, Summary.problemsNone]
  simp only [forall_and]

theorem trailerTellsVerdict (directory : String) (colors : Bool) (r : Report) (style : Style) :
    Concludes directory colors r style := by
  refine ⟨⟨_, endingTrailer colors (Summary.ofReport r) style, ?_⟩,
    renderNothing directory colors r style⟩
  rw [renderSplit, renderUncounted]

/- Counts without findings are told too. -/
example : Style.compact.render "/work" false [⟨"a.js", 1, 0, []⟩] = "\n1 problem\n" := by
  decide +kernel

end Report
end LintGate
