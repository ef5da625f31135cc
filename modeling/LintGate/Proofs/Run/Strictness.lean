import LintGate.Proofs.Run.Streams
/-! What strictness can change. Of two runs that differ in it alone, both ask the checker the same
and write the same up to their verdicts, and the one in which warnings count fails wherever the
other one does. -/
namespace LintGate

/- Something is written, and behind it a last line on one of the sinks that tells of an event. -/
def Console.Closes (k : Console) (before : Sink → String) (e : Event) (events : List Event) :
    Prop :=
  ∃ last line, k.write e = some (last, Text.line line) ∧ ∀ sink,
    k.output sink events = before sink ++ if last = sink then Text.line line else ""

theorem Console.verdictCloses (k : Console) (shared : List Event) (s : Summary)
    (strictness : Strictness) :
    k.Closes (k.output · shared) (.verdict s strictness) (shared ++ [.verdict s strictness]) := by
  have told : ∃ last line, k.write (.verdict s strictness) = some (last, Text.line line) := by
    rw [write]
    split
    · exact ⟨_, _, rfl⟩
    · exact ⟨_, _, rfl⟩
  obtain ⟨last, line, written⟩ := told
  refine ⟨last, line, written, fun sink => ?_⟩
  rw [outputAppend, outputWrites k sink [_], writesOne written]
  split
  · simp
  · rfl

namespace Run
open Selection (presentIn)

def Silent (events : List Event) : Prop := ∀ s strictness, .verdict s strictness ∉ events

/- The events of a run in which only errors count, and of the same run where warnings do too. -/
inductive UpToVerdict : List Event → List Event → Prop where
  | unjudged {events} (silent : Silent events) : UpToVerdict events events
  | judged {shared} (s : Summary) (silent : Silent shared) :
      UpToVerdict (shared ++ [.verdict s .errors]) (shared ++ [.verdict s .warnings])

/- A verdict is come to only where a report was given and could be shown. -/
def Shown (h : Host) (c : Checker) (p : Plan) (paths : List String) (r : Report) : Prop :=
  c.check paths = .ok r ∧ ∃ text, Report.render h c p.format r (Summary.ofReport r) = .ok text

inductive Rejudged (h : Host) (c : Checker) (p : Plan) : Outcome → Outcome → Prop where
  | unjudged {o} (silent : Silent o.events)
      (unshown : ∀ paths ∈ o.asked, ∀ r, ¬ Shown h c p paths r) : Rejudged h c p o o
  | judged {shared paths r} (silent : Silent shared) (shown : Shown h c p paths r) :
      Rejudged h c p
        ⟨verdict { p with strictness := .errors } (Summary.ofReport r),
          shared ++ [.verdict (Summary.ofReport r) .errors], [paths]⟩
        ⟨verdict { p with strictness := .warnings } (Summary.ofReport r),
          shared ++ [.verdict (Summary.ofReport r) .warnings], [paths]⟩

/- How a run in which warnings count stands to the one in which they do not. -/
structure Stricter (h : Host) (c : Checker) (p : Plan) (lenient strict : Outcome) : Prop where
  asked : strict.asked = lenient.asked
  events : UpToVerdict lenient.events strict.events
  written : ∀ k : Console, (∀ sink, k.output sink strict.events = k.output sink lenient.events) ∨
    ∃ before s, k.Closes before (.verdict s .errors) lenient.events ∧
      k.Closes before (.verdict s .warnings) strict.events
  monotone : lenient.status = .failure → strict.status = .failure
  differs : strict.status ≠ lenient.status ↔ ∃ paths ∈ lenient.asked, ∃ r, Shown h c p paths r ∧
    r.total FileReport.errors = 0 ∧ r.total FileReport.warnings ≠ 0

variable {h : Host} {c : Checker} {p : Plan} {files : List String} {o o' : Outcome}
  {events events' : List Event} {r : Report}

/-! ### Verdicts -/

theorem lenientPasses (p : Plan) :
    verdict { p with strictness := .errors } (Summary.ofReport r) = .success ↔
      r.total FileReport.errors = 0 := by
  simp [verdictPasses]

theorem strictPasses (p : Plan) :
    verdict { p with strictness := .warnings } (Summary.ofReport r) = .success ↔
      r.total FileReport.errors = 0 ∧ r.total FileReport.warnings = 0 := by
  simp [verdictPasses]

theorem verdictMonotone (p : Plan)
    (fails : verdict { p with strictness := .errors } (Summary.ofReport r) = .failure) :
    verdict { p with strictness := .warnings } (Summary.ofReport r) = .failure := by
  cases strict : verdict { p with strictness := .warnings } (Summary.ofReport r) with
  | failure => rfl
  | success =>
    have lenient := (lenientPasses p).mpr ((strictPasses p).mp strict).1
    cases fails.symm.trans lenient

/- A status that is never better than another differs from it where it alone is bad. -/
theorem statusesDiffer {s t : Status} (monotone : s = .failure → t = .failure) :
    t ≠ s ↔ s = .success ∧ t ≠ .success := by
  cases s with
  | success => simp
  | failure => simp [monotone rfl]

theorem verdictsDiffer (p : Plan) :
    verdict { p with strictness := .warnings } (Summary.ofReport r) ≠
        verdict { p with strictness := .errors } (Summary.ofReport r) ↔
      r.total FileReport.errors = 0 ∧ r.total FileReport.warnings ≠ 0 := by
  rw [statusesDiffer (verdictMonotone p), lenientPasses, ne_eq, strictPasses]
  refine and_congr_right fun clean => ?_
  rw [not_and]
  exact ⟨fun harm => harm clean, fun harm _ => harm⟩

/-! ### Runs -/

theorem warningsUnjudged (h : Host) (files : List String) : Silent (warnings h files) := by
  simp [Silent, warnings, missingEvents, inaccessibleEvents]

theorem silentBehind {e : Event} (silent : Silent events)
    (other : ∀ s strictness, e ≠ .verdict s strictness) : Silent (events ++ [e]) := by
  intro s strictness judged
  rcases List.mem_append.mp judged with before | last
  · exact silent s strictness before
  · exact other s strictness (List.mem_singleton.mp last).symm

theorem runRejudged (h : Host) (c : Checker) (p : Plan) (files : List String) :
    Rejudged h c p (run h c { p with strictness := .errors } files)
      (run h c { p with strictness := .warnings } files) := by
  have quiet := warningsUnjudged h files
  by_cases named : files = []
  · subst files
    have before : Silent [] := by simp [Silent]
    exact .unjudged (silentBehind before (by simp)) (by simp [run])
  by_cases absent : presentIn h.probe files = []
  · rw [runNothing named absent, runNothing named absent]
    exact .unjudged (silentBehind quiet (by simp)) (by simp)
  rw [runChecked absent, runChecked absent]
  unfold check
  cases checked : c.check (presentIn h.probe files) with
  | error e => exact .unjudged (silentBehind quiet (by simp)) (by simp [Shown, checked])
  | ok r =>
    dsimp only [conclude]
    cases rendered : Report.render h c p.format r (Summary.ofReport r) with
    | error e =>
      exact .unjudged (silentBehind quiet (by simp)) (by simp [Shown, checked, rendered])
    | ok text =>
      have behind : Silent (warnings h files ++ [.report text]) := silentBehind quiet (by simp)
      have shown : Shown h c p (presentIn h.probe files) r := ⟨checked, text, rendered⟩
      simpa only [List.append_assoc, List.singleton_append] using Rejudged.judged behind shown

theorem upToWritten (same : UpToVerdict events events') (k : Console) :
    (∀ sink, k.output sink events' = k.output sink events) ∨
      ∃ before s, k.Closes before (.verdict s .errors) events ∧
        k.Closes before (.verdict s .warnings) events' := by
  cases same with
  | unjudged silent => exact .inl fun sink => rfl
  | judged s silent => exact .inr ⟨_, s, k.verdictCloses _ s .errors, k.verdictCloses _ s .warnings⟩

theorem rejudgedStricter (rejudged : Rejudged h c p o o') : Stricter h c p o o' := by
  cases rejudged with
  | unjudged silent unshown =>
    have same := UpToVerdict.unjudged silent
    refine ⟨rfl, same, upToWritten same, id, ?_⟩
    simp only [ne_eq, not_true, false_iff]
    intro harmed
    obtain ⟨paths, member, r, shown, _⟩ := harmed
    exact unshown paths member r shown
  | @judged shared paths r silent shown =>
    have same := UpToVerdict.judged (Summary.ofReport r) silent
    refine ⟨rfl, same, upToWritten same, verdictMonotone p, (verdictsDiffer p).trans ?_⟩
    constructor
    · intro harm
      exact ⟨paths, List.mem_singleton_self paths, r, shown, harm⟩
    · intro harmed
      obtain ⟨paths', member, r', shown', harm⟩ := harmed
      cases List.mem_singleton.mp member
      cases shown.1.symm.trans shown'.1
      exact harm

end Run
end LintGate
