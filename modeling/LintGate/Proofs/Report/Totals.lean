import LintGate.Proofs.Program.Verdict
import Mathlib.Data.List.Perm.Subperm
/-! The totals of a report from those of its parts. They add up, whatever the order of the files is,
and a report fails as soon as one of its files fails alone. Added up in words of 64 bits they come to
the same where all counts together have room in a word. -/
namespace LintGate

/-! ### Parts of a report -/
namespace Report

variable {a b : Report} {count : FileReport → Nat}

theorem totalPermuted (same : a.Perm b) : a.total count = b.total count := by
  induction same with
  | nil => rfl
  | cons f same ih => rw [total, total, ih]
  | swap f g r =>
    simp only [total]
    omega
  | trans first second ih ih' => rw [ih, ih']

theorem totalBelow (part : List.Sublist a b) : a.total count ≤ b.total count := by
  induction part with
  | slnil => exact Nat.le_refl _
  | cons f part ih => exact Nat.le_trans ih (Nat.le_add_left _ _)
  | cons_cons f part ih => exact Nat.add_le_add_left ih _

/- Some of the files in some order. -/
theorem totalSelected (part : List.Subperm a b) : a.total count ≤ b.total count := by
  obtain ⟨c, same, inside⟩ := part
  rw [← totalPermuted same]
  exact totalBelow inside

end Report

namespace Summary

variable {a b r : Report} {f : FileReport} {s t : Summary}

/-! ### Sums in words -/

/- The least number for which a word has no room. -/
def wordLimit : Nat := Nat.pow 2 64

def sum? (m n : Nat) : Option Nat := if m + n < wordLimit then some (m + n) else none

def add? (s : Summary) (f : FileReport) : Option Summary := do
  some ⟨← sum? s.errors f.errors, ← sum? s.warnings f.warnings, ← sum? s.files 1⟩

def ofReport? (r : Report) : Option Summary := r.foldlM add? empty

def fails? (s : Summary) : Strictness → Option Bool
  | .errors => some (s.errors > 0)
  | .warnings => (sum? s.errors s.warnings).map (· > 0)

structure Fits (s : Summary) : Prop where
  errors : s.errors < wordLimit
  warnings : s.warnings < wordLimit
  files : s.files < wordLimit

theorem sumRead {m n k : Nat} : sum? m n = some k ↔ m + n < wordLimit ∧ k = m + n := by
  unfold sum?
  split
  · rename_i room
    rw [Option.some_inj, eq_comm]
    exact ⟨fun same => ⟨room, same⟩, And.right⟩
  · rename_i full
    exact ⟨nofun, fun whole => absurd whole.1 full⟩

theorem addRead : s.add? f = some t ↔ (s.add f).Fits ∧ t = s.add f := by
  simp only [add?, Option.bind_eq_bind, Option.bind_eq_some_iff, sumRead]
  constructor
  · rintro ⟨_, ⟨errors, rfl⟩, _, ⟨warnings, rfl⟩, _, ⟨files, rfl⟩, whole⟩
    exact ⟨⟨errors, warnings, files⟩, (Option.some.inj whole).symm⟩
  · rintro ⟨⟨errors, warnings, files⟩, rfl⟩
    exact ⟨_, ⟨errors, rfl⟩, _, ⟨warnings, rfl⟩, _, ⟨files, rfl⟩, rfl⟩

theorem plusCons (s : Summary) (f : FileReport) (r : Report) :
    s.plus (ofReport (f :: r)) = (s.add f).plus (ofReport r) :=
  (foldlAdd (f :: r) s).symm.trans (foldlAdd r (s.add f))

theorem fitsBefore (fits : (s.plus t).Fits) : s.Fits :=
  ⟨Nat.lt_of_add_right_lt fits.errors, Nat.lt_of_add_right_lt fits.warnings,
    Nat.lt_of_add_right_lt fits.files⟩

/- Sums only grow, so that one is refused on the way just where the last one would be. -/
theorem addsRead (fits : s.Fits) :
    r.foldlM add? s = some t ↔ (s.plus (ofReport r)).Fits ∧ t = s.plus (ofReport r) := by
  induction r generalizing s with
  | nil =>
    have same : s.plus (ofReport []) = s := rfl
    rw [List.foldlM_nil, same, Option.pure_def, Option.some_inj, eq_comm]
    exact ⟨fun same => ⟨fits, same⟩, And.right⟩
  | cons f r ih =>
    rw [List.foldlM_cons, Option.bind_eq_bind, Option.bind_eq_some_iff, plusCons]
    constructor
    · rintro ⟨next, added, rest⟩
      obtain ⟨room, rfl⟩ := addRead.mp added
      exact (ih room).mp rest
    · intro whole
      have room := fitsBefore whole.1
      exact ⟨s.add f, addRead.mpr ⟨room, rfl⟩, (ih room).mpr whole⟩

theorem ofReportRead : ofReport? r = some t ↔ (ofReport r).Fits ∧ t = ofReport r := by
  have start : empty.plus (ofReport r) = ofReport r := by simp [plus, empty]
  have fits : empty.Fits := ⟨by decide, by decide, by decide⟩
  rw [ofReport?, addsRead fits, start]

theorem failsRead (room : s.problems < wordLimit) (strictness : Strictness) :
    s.fails? strictness = some (s.fails strictness) := by
  cases strictness with
  | errors => rfl
  | warnings =>
    have read : sum? s.errors s.warnings = some s.problems := sumRead.mpr ⟨room, rfl⟩
    rw [fails?, read]
    rfl

/-! ### The whole and its parts -/

theorem ofReportPermuted (same : a.Perm b) : ofReport a = ofReport b := by
  simp only [ofReportTotals, totals, Report.totalPermuted same, same.length_eq]

theorem problemsNone (r : Report) :
    (ofReport r).problems = 0 ↔ ∀ f ∈ r, f.errors = 0 ∧ f.warnings = 0 := by
  have fails := failsCounted r .warnings
  rw [Summary.fails, decide_eq_true_iff, gt_iff_lt, Nat.pos_iff_ne_zero, not_iff_comm] at fails
  rw [← fails]
  simp [FileReport.counted]

theorem failsSome (r : Report) (strictness : Strictness) :
    (ofReport r).fails strictness = true ↔ ∃ f ∈ r, (ofReport [f]).fails strictness = true := by
  simp only [failsCounted, List.mem_singleton, exists_eq_left]

/- The counts of two reports taken together. What is said of a selection holds of the whole in any
order, of each of the two reports, and of each file alone. Only the number of files may still grow
out of a word, and only where there are as many files as that. -/
structure Batch (a b : Report) : Prop where
  sum : ofReport (a ++ b) = (ofReport a).plus (ofReport b)
  order : ∀ r, r.Perm (a ++ b) → ofReport r = ofReport (a ++ b)
  counted : ∀ r, r.Subperm (a ++ b) → (ofReport? r = some (ofReport r) ↔ r.length < wordLimit)
  judged : ∀ r, r.Subperm (a ++ b) → ∀ strictness,
    (ofReport r).fails? strictness = some ((ofReport r).fails strictness)
  fails : ∀ strictness, (ofReport (a ++ b)).fails strictness = true ↔
    ∃ f ∈ a ++ b, (ofReport [f]).fails strictness = true

theorem batchCombines
    (room : (a ++ b).total FileReport.errors + (a ++ b).total FileReport.warnings < wordLimit) :
    Batch a b := by
  have selected {r : Report} (part : r.Subperm (a ++ b)) :
      r.total FileReport.errors + r.total FileReport.warnings < wordLimit :=
    Nat.lt_of_le_of_lt
      (Nat.add_le_add (Report.totalSelected part) (Report.totalSelected part)) room
  refine ⟨ofReportAppend a b, fun r => ofReportPermuted, fun r part => ?_, fun r part => ?_,
    failsSome (a ++ b)⟩
  · have counts := selected part
    rw [ofReportRead, ofReportTotals]
    constructor
    · intro read
      exact read.1.files
    · intro files
      refine ⟨⟨?_, ?_, files⟩, rfl⟩
      · show r.total FileReport.errors < wordLimit
        omega
      · show r.total FileReport.warnings < wordLimit
        omega
  · refine failsRead ?_
    rw [ofReportTotals]
    exact selected part

/- Counts that fill a word to the last. -/
theorem batchCombinesSample :
    let a : Report := [⟨"a.js", wordLimit - 3, 1, []⟩, ⟨"b.js", 0, 0, []⟩]
    let b : Report := [⟨"c.js", 1, 0, []⟩]
    (a ++ b).total FileReport.errors + (a ++ b).total FileReport.warnings < wordLimit ∧
      Batch a b := by
  intro a b
  have room : (a ++ b).total FileReport.errors + (a ++ b).total FileReport.warnings < wordLimit := by
    decide
  exact ⟨room, batchCombines room⟩

/- One more than fits, and the sum is refused. -/
example : ofReport? [⟨"a.js", wordLimit - 1, 0, []⟩, ⟨"b.js", 1, 0, []⟩] = none := by decide

end Summary
end LintGate
