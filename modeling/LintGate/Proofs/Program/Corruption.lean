import LintGate.Proofs.Program.Exit
import LintGate.Proofs.Report.Octets
/-! The octets in the texts of messages decide nothing: whichever they are, the engine's report is
accepted, and two reports that differ in nothing else end every run with the same code. -/
namespace LintGate
open Json.Grammar (Part)
open Report.Native (RawFile Prints Alike decodedText)

/-! ### One report -/
namespace Engine

/- The engine answers the call with a document of the report. -/
def Delivers (h : Host) (c : Call) (files : List RawFile) : Prop :=
  ∃ reply ps, h.launch c = .ok reply ∧ reply.ending.Reports ∧ Prints files ps ∧
    reply.stdout = ps.flatMap Part.octets

variable {e : Engine} {h : Host} {paths : List String} {c : Call} {files : List RawFile}

theorem checkDecoded {ps : List Part} {reply : Reply} (ready : Ready e h paths c)
    (prints : Prints files ps) (started : h.launch c = .ok reply)
    (reports : reply.ending.Reports)
    (decoded : Text.Utf8.decodeLossy reply.stdout = decodedText ps) :
    (e.check h paths).result = .ok (files.map RawFile.report) := by
  have read := Report.Native.printsRead prints
  rw [← decoded] at read
  rw [concludesCheck (.reported ready started reports read)]

theorem deliversAnswers {program : String} {leading : List String}
    (command : e.command = program :: leading) (writable : h.scratch.fault = none)
    (sent : ∀ c, Delivers h c files) (paths : List String) :
    Answers e h paths (files.map RawFile.report) := by
  obtain ⟨reply, ps, started, reports, prints, octets⟩ :=
    sent (call e.ruleset h program leading paths)
  refine ⟨program, leading, reply, command, writable, started, reports, ?_⟩
  rw [octets, Report.Native.octetsDecoded]
  exact Report.Native.printsRead prints

end Engine

/-! ### Two reports -/
namespace Program

/- What two reports that are alike come to in a total is the same. -/
theorem alikeTotal {files others : List RawFile} (alike : Alike files others)
    (count : FileReport → Nat) (kept : ∀ f : RawFile, count f.report = count f.bare.report) :
    Report.total count (files.map RawFile.report) =
      Report.total count (others.map RawFile.report) := by
  have bare (gs : List RawFile) : Report.total count (gs.map RawFile.report) =
      Report.total count ((gs.map RawFile.bare).map RawFile.report) := by
    induction gs with
    | nil => rfl
    | cons g gs ih => simp only [List.map_cons, Report.total, kept g, ih]
  rw [bare files, alike, ← bare others]

theorem alikeHarmless {p : Plan} {files others : List RawFile} (alike : Alike files others) :
    Harmless p (files.map RawFile.report) ↔ Harmless p (others.map RawFile.report) := by
  have errors := alikeTotal alike FileReport.errors fun _ => rfl
  have warnings := alikeTotal alike FileReport.warnings fun _ => rfl
  rw [Harmless, Harmless, errors, warnings]

theorem alikePasses {h : Host} {launch : Call → Except Fault Reply} {files others : List RawFile}
    {i : Invocation} (alike : Alike files others) (sent : ∀ c, Engine.Delivers h c files)
    (other : ∀ c, Engine.Delivers { h with launch } c others) (passes : Passes h i) :
    Passes { h with launch } i := by
  obtain ⟨p, resolved, filled, absent | ⟨r, answers, harmless⟩⟩ := passes
  · exact ⟨p, resolved, filled, .inl absent⟩
  · have found := Engine.checkAnswers.mpr answers
    obtain ⟨program, leading, _, command, writable, _⟩ := answers
    have first := Engine.deliversAnswers command writable sent (Selection.presentIn h.probe i.files)
    cases found.symm.trans (Engine.checkAnswers.mpr first)
    have second := Engine.deliversAnswers (h := { h with launch }) command writable other
    exact ⟨p, resolved, filled, .inr ⟨_, second _, (alikeHarmless alike).mp harmless⟩⟩

theorem alikeCode {h : Host} {launch : Call → Except Fault Reply} {files others : List RawFile}
    (alike : Alike files others) (sent : ∀ c, Engine.Delivers h c files)
    (other : ∀ c, Engine.Delivers { h with launch } c others) (argv : List String) :
    (run h argv).code = (run { h with launch } argv).code := by
  cases parsed : CommandLine.read argv with
  | error s =>
    unfold run
    rw [parsed]
    cases s <;> rfl
  | ok i =>
    have there : Passes h i → Passes { h with launch } i := alikePasses alike sent other
    have back : Passes { h with launch } i → Passes h i :=
      alikePasses (h := { h with launch }) alike.symm other sent
    by_cases passes : Passes h i
    · rw [(runPasses parsed).1.mpr passes, (runPasses parsed).1.mpr (there passes)]
    · rw [(runPasses parsed).2.mpr passes, (runPasses parsed).2.mpr fun p => passes (back p)]

/- What a report comes to whatever octets its texts are: it can be sent, and every document of it
is read with each text decoded by itself, as if the decoded texts had been sent; and a report that
is alike ends every run with the same code. -/
structure OctetsHarmless (files : List RawFile) : Prop where
  printable : ∃ ps, Prints files ps
  checked : ∀ e h paths c, Engine.Ready e h paths c → Engine.Delivers h c files →
    (e.check h paths).result = .ok (files.map RawFile.report)
  decoded : ∀ e h paths c ps reply, Engine.Ready e h paths c → Prints files ps →
    h.launch c = .ok reply → reply.ending.Reports →
    reply.stdout = Text.Utf8.encode (decodedText ps) →
    (e.check h paths).result = .ok (files.map RawFile.report)
  decided : ∀ others, Alike files others → ∀ h launch, (∀ c, Engine.Delivers h c files) →
    (∀ c, Engine.Delivers { h with launch } c others) →
    ∀ argv, (run h argv).code = (run { h with launch } argv).code

theorem corruptionHarmless (files : List RawFile) : OctetsHarmless files := by
  refine ⟨Report.Native.printable files, ?_, ?_,
    fun others alike h launch sent other argv => alikeCode alike sent other argv⟩
  · intro e h paths c ready ⟨reply, ps, started, reports, prints, octets⟩
    refine Engine.checkDecoded ready prints started reports ?_
    rw [octets, Report.Native.octetsDecoded]
  · intro e h paths c ps reply ready prints started reports octets
    refine Engine.checkDecoded ready prints started reports ?_
    rw [octets, Text.Utf8.encodedRead]

end Program
end LintGate
