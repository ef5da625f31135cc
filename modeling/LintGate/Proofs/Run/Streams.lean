import LintGate.Proofs.Run.Output
import LintGate.Proofs.Run.Paths
/-! What a run writes to each of the two sinks where its report is not JSON. Whatever it has to tell
goes to the output in the order of the run, but for the one complaint with which a run that fails
comes to its end. -/
namespace LintGate

/-! ### Writes -/
namespace Console

def writes (k : Console) (sink : Sink) (events : List Event) : List String :=
  (events.filterMap k.write).filterMap fun w => if w.1 = sink then some w.2 else none

theorem outputWrites (k : Console) (sink : Sink) (events : List Event) :
    k.output sink events = String.join (k.writes sink events) := rfl

def complaint (k : Console) (line : String) : String :=
  Text.line (Sign.error.mark k.colors line)

/- A report as it is printed: without the white space at its end, and not at all if it is blank. -/
def reportLines (text : String) : List String :=
  if Text.trimEnd text = "" then [] else [Text.line (Text.trimEnd text)]

variable {k : Console} {sink : Sink} {e : Event} {line : String}

theorem writesAppend (sink : Sink) (es fs : List Event) :
    k.writes sink (es ++ fs) = k.writes sink es ++ k.writes sink fs := by
  simp only [writes, List.filterMap_append]

theorem writesOne (written : k.write e = some (sink, line)) (other : Sink) :
    k.writes other [e] = if sink = other then [line] else [] := by
  unfold writes
  rw [List.filterMap_cons_some written, List.filterMap_nil, List.filterMap_cons]
  split <;> simp_all

theorem writesNone (unwritten : k.write e = none) (sink : Sink) : k.writes sink [e] = [] := by
  simp [writes, unwritten]

theorem writesError (written : k.write e = k.error line) (sink : Sink) :
    k.writes sink [e] = if Sink.err = sink then [k.complaint line] else [] :=
  writesOne written sink

theorem writesNotice (other : k.format ≠ .json) {s : Sign} (written : k.write e = k.notice s line)
    (sink : Sink) :
    k.writes sink [e] = if Sink.out = sink then [Text.line (s.mark k.colors line)] else [] := by
  rw [notice, noticeSink, if_neg other] at written
  exact writesOne written sink

theorem writesReport (text : String) (sink : Sink) :
    k.writes sink [.report text] = if Sink.out = sink then reportLines text else [] := by
  by_cases blank : Text.trimEnd text = ""
  · have unwritten : k.write (.report text) = none := by rw [write, report, if_pos blank]
    rw [writesNone unwritten, reportLines, if_pos blank, ite_self]
  · have written : k.write (.report text) = some (.out, Text.line (Text.trimEnd text)) := by
      rw [write, report, if_neg blank]
    rw [writesOne written, reportLines, if_neg blank]

/- An event is for one sink at most. It is told behind what came before it, and what comes after it
leaves that as it is. -/
structure Adds (k : Console) (before : List Event) (e : Event) (after : List Event) : Prop where
  single : ∃ sink, ∀ other, other ≠ sink → k.output other [e] = ""
  kept : ∀ sink, k.output sink (before ++ e :: after) =
    k.output sink before ++ k.output sink [e] ++ k.output sink after

theorem eventAdds (k : Console) (before : List Event) (e : Event) (after : List Event) :
    Adds k before e after := by
  refine ⟨?_, fun sink => ?_⟩
  · cases written : k.write e with
    | none =>
      refine ⟨.out, fun other _ => ?_⟩
      rw [outputWrites, writesNone written, String.join_nil]
    | some w =>
      refine ⟨w.1, fun other apart => ?_⟩
      rw [outputWrites, writesOne written, if_neg apart.symm, String.join_nil]
  · rw [← List.singleton_append, ← List.append_assoc, outputAppend, outputAppend]

end Console

/-! ### The sinks of a run -/
namespace Run
open Console (reportLines)
open Selection (presentIn)

def skipLines (k : Console) (h : Host) (files : List String) : List String :=
  (missingLines k h files ++ inaccessibleLines k h files).map Prod.snd

/- What stands on the output behind the warnings, and what on the other sink. -/
inductive Tells (h : Host) (c : Checker) (p : Plan) (k : Console) (files : List String) :
    Status → List String → List String → Prop where
  | noFiles (unnamed : files = []) :
      Tells h c p k files .failure [] [k.complaint Event.noFilesLine]
  | nothing (named : files ≠ []) (absent : presentIn h.probe files = []) :
      Tells h c p k files .success
        [Text.line (Sign.info.mark k.colors Event.nothingToCheckLine)] []
  | unchecked {e} (there : presentIn h.probe files ≠ [])
      (refused : c.check (presentIn h.probe files) = .error e) :
      Tells h c p k files .failure [] [k.complaint (Event.checkFailedLine e)]
  | unrendered {r e} (there : presentIn h.probe files ≠ [])
      (checked : c.check (presentIn h.probe files) = .ok r)
      (refused : Report.render h c p.format r (Summary.ofReport r) = .error e) :
      Tells h c p k files .failure [] [k.complaint (Event.checkFailedLine e)]
  | failed {r text} (there : presentIn h.probe files ≠ [])
      (checked : c.check (presentIn h.probe files) = .ok r)
      (rendered : Report.render h c p.format r (Summary.ofReport r) = .ok text)
      (fails : (Summary.ofReport r).fails p.strictness = true) :
      Tells h c p k files .failure (reportLines text)
        [k.complaint (Event.failedLine (Summary.ofReport r) p.strictness)]
  | passed {r text} (there : presentIn h.probe files ≠ [])
      (checked : c.check (presentIn h.probe files) = .ok r)
      (rendered : Report.render h c p.format r (Summary.ofReport r) = .ok text)
      (passes : (Summary.ofReport r).fails p.strictness = false) :
      Tells h c p k files .success
        (reportLines text ++
          [Text.line (Sign.passed.mark k.colors (Event.passedLine (Summary.ofReport r)))]) []

variable {h : Host} {c : Checker} {p : Plan} {files : List String} {o : Outcome} {k : Console}

theorem warningsOut (other : k.format ≠ .json) (h : Host) (files : List String) :
    k.writes .out (warnings h files) = skipLines k h files := by
  rw [Console.writes, warningsWritten]
  simp [skipLines, missingLines, inaccessibleLines, List.filterMap_map, Function.comp_def,
    Console.noticeSink, other]

theorem warningsErr (other : k.format ≠ .json) (h : Host) (files : List String) :
    k.writes .err (warnings h files) = [] := by
  rw [Console.writes, warningsWritten]
  simp [missingLines, inaccessibleLines, List.filterMap_map, Console.noticeSink, other]

/- The verdict is told where its kind of line belongs. -/
theorem verdictWrites (other : k.format ≠ .json) (s : Summary) (strictness : Strictness)
    (sink : Sink) :
    k.writes sink [.verdict s strictness] =
      if s.fails strictness then
        if Sink.err = sink then [k.complaint (Event.failedLine s strictness)] else []
      else if Sink.out = sink then
        [Text.line (Sign.passed.mark k.colors (Event.passedLine s))] else [] := by
  cases fails : s.fails strictness with
  | true => exact Console.writesError (by rw [Console.write, fails]; rfl) sink
  | false => exact Console.writesNotice other (by rw [Console.write, fails]; rfl) sink

theorem behindWarnings (other : k.format ≠ .json) (h : Host) (files : List String)
    (events : List Event) :
    k.writes .out (warnings h files ++ events) = skipLines k h files ++ k.writes .out events ∧
      k.writes .err (warnings h files ++ events) = k.writes .err events := by
  rw [Console.writesAppend, Console.writesAppend, warningsOut other, warningsErr other,
    List.nil_append]
  exact ⟨rfl, rfl⟩

theorem conclusionWrites (text : String) (s : Summary)
    (strictness : Strictness) (sink : Sink) :
    k.writes sink [.report text, .verdict s strictness] =
      (if Sink.out = sink then reportLines text else []) ++
        k.writes sink [.verdict s strictness] := by
  rw [← Console.writesReport (k := k), ← Console.writesAppend, List.singleton_append]

/- What a run tells in each of its endings, and where it does. -/
structure Told (h : Host) (c : Checker) (p : Plan) (k : Console) (files : List String)
    (o : Outcome) (rest complaints : List String) : Prop where
  tells : Tells h c p k files o.status rest complaints
  out : k.writes .out o.events = skipLines k h files ++ rest
  err : k.writes .err o.events = complaints

theorem complainedTold (other : k.format ≠ .json) {e : Event} {line : String}
    (written : k.write e = k.error line) {asked : List (List String)}
    (tells : Tells h c p k files .failure [] [k.complaint line]) :
    Told h c p k files ⟨.failure, warnings h files ++ [e], asked⟩ [] [k.complaint line] := by
  obtain ⟨out, err⟩ := behindWarnings other h files [e]
  rw [Console.writesError written] at out err
  exact ⟨tells, out, err⟩

theorem endsTold (other : k.format ≠ .json) (ends : Ends h c p files o) :
    ∃ rest complaints, Told h c p k files o rest complaints := by
  cases ends with
  | noFiles =>
    -- Where no file is named there is no warning either.
    have told : Told h c p k [] ⟨.failure, warnings h [] ++ [.noFiles], []⟩ [] _ :=
      complainedTold other rfl (.noFiles rfl)
    exact ⟨_, _, told⟩
  | nothing named absent =>
    obtain ⟨out, err⟩ := behindWarnings other h files [.nothingToCheck]
    rw [Console.writesNotice (s := .info) other rfl] at out err
    exact ⟨_, _, .nothing named absent, out, err⟩
  | unchecked there refused =>
    exact ⟨_, _, complainedTold other rfl (.unchecked there refused)⟩
  | unrendered there checked refused =>
    exact ⟨_, _, complainedTold other rfl (.unrendered there checked refused)⟩
  | @judged _ r text there checked rendered =>
    obtain ⟨out, err⟩ := behindWarnings other h files
      [.report text, .verdict (Summary.ofReport r) p.strictness]
    rw [conclusionWrites, verdictWrites other] at out err
    cases fails : (Summary.ofReport r).fails p.strictness with
    | true =>
      simp only [fails, verdict] at out err ⊢
      exact ⟨_, _, .failed there checked rendered fails, by simpa using out, by simpa using err⟩
    | false =>
      simp only [fails, verdict] at out err ⊢
      exact ⟨_, _, .passed there checked rendered fails, by simpa using out, by simpa using err⟩

/-! ### The discipline -/

/- What a run that fails can complain of. -/
inductive Complaint (p : Plan) : String → Prop where
  | noFiles : Complaint p Event.noFilesLine
  | checkFailed (e : EngineError) : Complaint p (Event.checkFailedLine e)
  | failed (s : Summary) : Complaint p (Event.failedLine s p.strictness)

theorem tellsComplaint {status : Status} {rest complaints : List String}
    (tells : Tells h c p k files status rest complaints) :
    status = .success ∧ complaints = [] ∨
      status = .failure ∧ ∃ line, Complaint p line ∧ complaints = [k.complaint line] := by
  cases tells with
  | nothing | passed => exact .inl ⟨rfl, rfl⟩
  | noFiles => exact .inr ⟨rfl, _, .noFiles, rfl⟩
  | unchecked | unrendered => exact .inr ⟨rfl, _, .checkFailed _, rfl⟩
  | failed => exact .inr ⟨rfl, _, .failed _, rfl⟩

structure Disciplined (h : Host) (c : Checker) (p : Plan) (k : Console) (files : List String)
    (o : Outcome) : Prop where
  quiet : k.output .err o.events = "" ↔ o.status = .success
  once : o.status = .failure →
    ∃ line, Complaint p line ∧ k.writes .err o.events = [k.complaint line]
  out : ∃ rest, Tells h c p k files o.status rest (k.writes .err o.events) ∧
    k.output .out o.events = String.join (skipLines k h files) ++ String.join rest

theorem toldDisciplined {rest complaints : List String}
    (told : Told h c p k files o rest complaints) : Disciplined h c p k files o := by
  obtain ⟨tells, out, rfl⟩ := told
  refine ⟨?_, ?_, rest, tells, ?_⟩
  · rw [Console.outputWrites]
    rcases tellsComplaint tells with ⟨success, none⟩ | ⟨failure, line, _, one⟩
    · rw [none, success]
      exact iff_of_true rfl rfl
    · rw [one, failure, String.join_cons, String.join_nil, String.append_empty]
      exact iff_of_false (lineFilled _) (by simp)
  · intro failure
    rcases tellsComplaint tells with ⟨success, _⟩ | ⟨_, complained⟩
    · rw [failure] at success
      contradiction
    · exact complained
  · rw [Console.outputWrites, out, String.join_append]

theorem streamDiscipline (h : Host) (c : Checker) (p : Plan) (files : List String) :
    (∀ k : Console, k.format ≠ .json → Disciplined h c p k files (run h c p files)) ∧
      ∀ (k : Console) (before : List Event) (e : Event) (after : List Event),
        k.Adds before e after := by
  refine ⟨?_, Console.eventAdds⟩
  intro k other
  obtain ⟨rest, complaints, told⟩ := endsTold other (runEnds h c p files)
  exact toldDisciplined told

/- Of the names only `a.js` is there, and a check of it finds one thing to warn of. -/
def sampleHost : Host where
  directory := "/work"
  colors := true
  probe := fun path => .ok (path == "a.js")
  read := fun _ => .error .notFound
  scratch := ⟨"/tmp", none, []⟩
  begun := none
  launch := fun _ => .error .notFound

def sampleChecker : Checker where
  check paths := .ok (paths.map fun path =>
    ⟨path, 0, 1, [⟨4, 1, .warning, "Prefer $.ajax ", none, false⟩]⟩)
  style _ name := .error (.unknownStyle name)

theorem streamDisciplineSample :
    let p := { Plan.usual with format := .plain, strictness := .warnings }
    let k : Console := ⟨.plain, true⟩
    k.format ≠ .json ∧
      Disciplined sampleHost sampleChecker p k ["b.js", "a.js"]
        (run sampleHost sampleChecker p ["b.js", "a.js"]) := by
  intro p k
  have other : k.format ≠ .json := by decide
  exact ⟨other, (streamDiscipline sampleHost sampleChecker p ["b.js", "a.js"]).1 k other⟩

end Run
end LintGate
