import LintGate.Proofs.Program.Exit
import LintGate.Proofs.Run.Paths
/-! The calls that a run makes of the engine, and what it tells once the engine has answered. -/
namespace LintGate.Program
open Selection (presentIn)

variable {h : Host} {p : Plan} {files : List String}

/- A host where every file is there, each with the text that is given for settings, and where
the engine prints what it is given, whatever it is called with. -/
def givenHost (settings printed : String) : Host where
  directory := "/work"
  colors := false
  probe := fun _ => .ok true
  read := fun _ => .ok (Text.Utf8.encode settings)
  scratch := ⟨"/tmp", none, []⟩
  begun := none
  launch := fun _ => .ok ⟨Text.Utf8.encode printed, [], .exited 0⟩

theorem calledFor (h : Host) (p : Plan) (files : List String) :
    (runPlan h p files).2.1 =
      if presentIn h.probe files = [] then []
      else ((engine p).check h (presentIn h.probe files)).calls := by
  have accounted := Run.endsAccounted (Run.runEnds h ((engine p).checker h) p files)
  have asked : (runPlan h p files).1.asked =
      if presentIn h.probe files = [] then [] else [presentIn h.probe files] := accounted.asked
  show (engineCalls (engine p) h (runPlan h p files).1.asked).1 = _
  rw [asked]
  split
  · rfl
  · rfl

/- Wherever a call comes from, the words were in order and the settings stood. -/
theorem calledReady {argv : List String} {c : Call} (called : c ∈ (run h argv).calls) :
    ∃ i p, CommandLine.read argv = .ok i ∧ i.options.resolve h.read = .ok p ∧
      (engine p).Ready h (presentIn h.probe i.files) c := by
  unfold run at called
  cases parsed : CommandLine.read argv with
  | error s => cases s <;> simp [parsed, stopped] at called
  | ok i =>
    cases resolved : i.options.resolve h.read with
    | error e => simp [parsed, resolved, unsettled] at called
    | ok p =>
      rw [parsed] at called
      dsimp only at called
      rw [resolved] at called
      change c ∈ (runPlan h p i.files).2.1 at called
      rw [calledFor] at called
      split at called
      · contradiction
      · have concludes := Engine.checkConcludes (engine p) h (presentIn h.probe i.files)
        exact ⟨i, p, rfl, resolved, (Engine.concludesOnce concludes).2 c called⟩

theorem answeredRun {r : Report} (there : presentIn h.probe files ≠ [])
    (answers : (engine p).Answers h (presentIn h.probe files) r) :
    ∃ text, (runPlan h p files).1 =
      ⟨Run.verdict p (Summary.ofReport r),
        Run.warnings h files ++ [.report text, .verdict (Summary.ofReport r) p.strictness],
        [presentIn h.probe files]⟩ := by
  obtain ⟨text, rendered⟩ := (engine p).renders h p.format r (Summary.ofReport r)
  have checked := Engine.checkAnswers.mpr answers
  refine ⟨text, ?_⟩
  show LintGate.run h ((engine p).checker h) p files = _
  rw [Run.runChecked there]
  simp [Run.check, Run.conclude, checked, rendered]

end LintGate.Program
