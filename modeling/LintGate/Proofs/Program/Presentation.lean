import LintGate.Proofs.Program.Calls
/-! How a report is shown decides nothing. Two runs that differ in the format of the report and in
the colours alone end alike and call the engine alike; a report that was read can be shown in every
format, so that a run fails for no reason but those of its check. -/
namespace LintGate

/- Calls that differ at most in where the configuration lies. -/
structure Call.Alike (c c' : Call) : Prop where
  program : c'.program = c.program
  environment : c'.environment = c.environment
  arguments : ∃ leading path path' rest text,
    c.arguments = leading ++ "--config" :: path :: rest ∧
    c'.arguments = leading ++ "--config" :: path' :: rest ∧
    c.files.lookup path = some text ∧ c'.files.lookup path' = some text

namespace Engine

/- Hosts on which a run finds the same files, and the same answer of the engine. Colours may
differ, and so may what else is among the temporary files, from which a new name follows. -/
structure SameBut (e : Engine) (h h' : Host) : Prop where
  directory : h'.directory = h.directory
  probe : h'.probe = h.probe
  fault : h'.scratch.fault = h.scratch.fault
  launch : ∀ program leading paths,
    h'.launch (call e.ruleset h' program leading paths) =
      h.launch (call e.ruleset h program leading paths)

theorem colorsSame (e : Engine) (h : Host) (colors : Bool) : SameBut e h { h with colors } :=
  ⟨rfl, rfl, rfl, fun _ _ _ => rfl⟩

variable {e : Engine} {h h' : Host} {paths : List String}

theorem callAlike (directory : h'.directory = h.directory) (rules : Ruleset) (program : String)
    (leading paths : List String) :
    (call rules h program leading paths).Alike (call rules h' program leading paths) := by
  have held (h : Host) : (call rules h program leading paths).files.lookup
      (h.scratch.path h.scratch.freshName) = some rules.configText := List.lookup_cons_self
  refine ⟨rfl, rfl, leading, _, _, options rules h.directory ++ "--" :: paths, _, ?_, ?_,
    held h, held h'⟩
  · rw [callArguments, List.append_assoc, List.cons_append, List.cons_append]
  · rw [callArguments, directory, List.append_assoc, List.cons_append, List.cons_append]

theorem answersSame (same : SameBut e h h') {r : Report} :
    Answers e h' paths r ↔ Answers e h paths r := by
  simp only [Answers, same.fault, same.launch]

theorem callsAlike (same : SameBut e h h') (paths : List String) :
    List.Forall₂ Call.Alike (e.check h paths).calls (e.check h' paths).calls := by
  rcases checkCases e h paths with absent | ⟨named, fault, refused⟩ | ⟨c, ready⟩
  · rw [checkNoCommand absent, checkNoCommand absent]
    exact .nil
  · rw [checkUnwritable named refused, checkUnwritable named (same.fault.trans refused)]
    exact .nil
  · obtain ⟨leading, command, called⟩ := ready.command
    have ready' := @readyNamed _ _ paths _ _ command (same.fault.trans ready.writable)
    rw [checkReady ready, checkReady ready', same.launch, ← called]
    cases h.launch c with
    | error fault => exact .nil
    | ok reply =>
      refine .cons ?_ .nil
      rw [called]
      exact callAlike same.directory e.ruleset c.program leading paths

end Engine

namespace Program
open Selection (presentIn)

theorem statusSame {s t : Status} (alike : s = .success ↔ t = .success) : s = t := by
  cases s <;> cases t <;> simp_all

/- A run complains of nothing but its check, and a report that was read is shown. -/
structure Shows (h : Host) (p : Plan) (files : List String) : Prop where
  checked : ∀ e, .checkFailed e ∈ (runPlan h p files).1.events →
    (engine p).Concludes h (presentIn h.probe files) (.error e) (runPlan h p files).2.1
  styled : ∀ name, .checkFailed (.unknownStyle name) ∉ (runPlan h p files).1.events
  read : ∀ defect, .checkFailed (.unreadable defect) ∈ (runPlan h p files).1.events →
    ∃ c reply, c ∈ (runPlan h p files).2.1 ∧ h.launch c = .ok reply ∧
      Report.Native.read (Text.Utf8.decodeLossy reply.stdout) = .error defect
  shown : ∀ r, presentIn h.probe files ≠ [] →
    (engine p).Answers h (presentIn h.probe files) r →
    ∃ text, .report text ∈ (runPlan h p files).1.events

variable {h h' : Host} {p : Plan} {files : List String}

theorem warningsSilent (h : Host) (files : List String) (e : EngineError) :
    .checkFailed e ∉ Run.warnings h files := by
  simp [Run.warnings, Run.missingEvents, Run.inaccessibleEvents]

theorem complaintChecked {e : EngineError}
    (told : .checkFailed e ∈ (runPlan h p files).1.events) :
    presentIn h.probe files ≠ [] ∧
      ((engine p).check h (presentIn h.probe files)).result = .error e := by
  have ends := Run.runEnds h ((engine p).checker h) p files
  change .checkFailed e ∈ (LintGate.run h ((engine p).checker h) p files).events at told
  generalize LintGate.run h ((engine p).checker h) p files = o at ends told
  cases ends with
  | noFiles => simp at told
  | nothing named absent => simp [warningsSilent] at told
  | @unchecked _ found there refused =>
    have same : e = found := by simpa [warningsSilent] using told
    rw [same]
    exact ⟨there, refused⟩
  | @unrendered _ r found there checked refused =>
    -- The engine offers every style that a format asks for.
    obtain ⟨text, rendered⟩ := (engine p).renders h p.format r (Summary.ofReport r)
    rw [rendered] at refused
    cases refused
  | judged there checked rendered => simp [warningsSilent] at told

theorem complaintConcludes {e : EngineError}
    (told : .checkFailed e ∈ (runPlan h p files).1.events) :
    (engine p).Concludes h (presentIn h.probe files) (.error e) (runPlan h p files).2.1 := by
  obtain ⟨there, refused⟩ := complaintChecked told
  have concludes := Engine.checkConcludes (engine p) h (presentIn h.probe files)
  have called := calledFor h p files
  rw [if_neg there] at called
  rwa [refused, ← called] at concludes

theorem runShows (h : Host) (p : Plan) (files : List String) : Shows h p files := by
  refine ⟨fun e => complaintConcludes, ?_, ?_, ?_⟩
  · intro name told
    have concludes := complaintConcludes told
    cases concludes
  · intro defect told
    have concludes := complaintConcludes told
    generalize (runPlan h p files).2.1 = calls at concludes
    cases concludes with
    | @unreadable c reply _ ready started reports read =>
      exact ⟨c, reply, List.mem_singleton_self c, started, read⟩
  · intro r there answers
    obtain ⟨text, ran⟩ := answeredRun there answers
    rw [ran]
    exact ⟨text, by simp⟩

structure Indifferent (h h' : Host) (p p' : Plan) (files : List String) : Prop where
  status : (runPlan h' p' files).1.status = (runPlan h p files).1.status
  calls : List.Forall₂ Call.Alike (runPlan h p files).2.1 (runPlan h' p' files).2.1
  shows : Shows h p files ∧ Shows h' p' files

theorem sameIndifferent (same : (engine p).SameBut h h') (format : Format) (files : List String) :
    Indifferent h h' p { p with format } files := by
  refine ⟨?_, ?_, runShows h p files, runShows h' _ files⟩
  · refine statusSame ?_
    have before := @runSuccess h p files
    have after := @runSuccess h' { p with format } files
    refine after.trans (Iff.trans ?_ before.symm)
    rw [same.probe]
    exact and_congr_right fun _ => or_congr_right
      (exists_congr fun r => and_congr_left fun _ => Engine.answersSame same)
  · rw [calledFor, calledFor, same.probe]
    split
    · exact .nil
    · exact Engine.callsAlike same _

theorem presentationIgnored (h : Host) (p : Plan) (format : Format) (files : List String) :
    (∀ colors, Indifferent h { h with colors } p { p with format } files) ∧
      ∀ h', (engine p).SameBut h h' → Indifferent h h' p { p with format } files :=
  ⟨fun colors => sameIndifferent (Engine.colorsSame _ h colors) format files,
    fun _ same => sameIndifferent same format files⟩

/- The second host has a file of the name that the first one chooses. -/
theorem presentationIgnoredSample :
    let h := givenHost "" "[]"
    let h' := { h with colors := true, scratch := h.scratch.add "jqlint-.json" "" }
    (engine Plan.usual).SameBut h h' ∧
      Indifferent h h' Plan.usual { Plan.usual with format := .json } ["a.js"] := by
  intro h h'
  have same : (engine Plan.usual).SameBut h h' := ⟨rfl, rfl, rfl, fun _ _ _ => rfl⟩
  exact ⟨same, (presentationIgnored h Plan.usual .json ["a.js"]).2 h' same⟩

end Program
end LintGate
