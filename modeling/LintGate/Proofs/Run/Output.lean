import LintGate.Proofs.Report.Document
import LintGate.Proofs.Run.Ending
/-! Where the report is JSON the output is the document or nothing: whoever reads it gets back the
report that the checker gave, and all else that a run has to tell goes to the other sink. -/
namespace LintGate

/-! ### Sinks -/
namespace Console

variable {k : Console}

def Aside (k : Console) (e : Event) : Prop := ∃ line, k.write e = some (.err, line)

theorem noticeAside (json : k.format = .json) (s : Sign) (line : String) :
    ∃ told, k.notice s line = some (.err, told) :=
  ⟨Text.line (s.mark k.colors line), by rw [notice, noticeSink, if_pos json]⟩

theorem jsonAside (json : k.format = .json) {e : Event} (other : ∀ text, e ≠ .report text) :
    k.Aside e := by
  cases e with
  | report text => exact absurd rfl (other text)
  | noFiles | checkFailed => exact ⟨_, rfl⟩
  | missing | inaccessible | nothingToCheck => exact noticeAside json _ _
  | verdict s strictness =>
    rw [Aside, write]
    split
    · exact ⟨_, rfl⟩
    · exact noticeAside json _ _

theorem outputAppend (sink : Sink) (es fs : List Event) :
    k.output sink (es ++ fs) = k.output sink es ++ k.output sink fs := by
  simp [output, List.filterMap_append, String.join_append]

theorem outputAside {es : List Event} (aside : ∀ e ∈ es, k.Aside e) : k.output .out es = "" := by
  induction es with
  | nil => rfl
  | cons e es ih =>
    obtain ⟨line, written⟩ := aside e (by simp)
    have rest := ih fun f member => aside f (by simp [member])
    unfold output at rest ⊢
    rw [List.filterMap_cons_some written, List.filterMap_cons]
    exact rest

theorem outputReport {text : String} (kept : Text.trimEnd text = text) (filled : text ≠ "") :
    k.output .out [.report text] = Text.line text := by
  have written : k.write (.report text) = some (.out, Text.line text) := by
    rw [write, report, kept, if_neg filled]
  simp [output, written]

end Console

/-! ### The output of a run -/
namespace Run
open Selection (presentIn)
open Json.Grammar (Spells)

structure MachineReadable (c : Checker) (o : Outcome) (out : String) : Prop where
  shape : out = "" ∨ ∃ v : Json.Value, Spells (.value v) v.pretty.toList ∧ out = Text.line v.pretty
  filled : out ≠ "" ↔ ∃ paths ∈ o.asked, ∃ r, c.check paths = .ok r
  decoded : ∀ paths ∈ o.asked, ∀ r, c.check paths = .ok r →
    Report.Document.read? out = some (r, Summary.totals r)

variable {h : Host} {c : Checker} {p : Plan} {files : List String} {o : Outcome} {k : Console}

theorem warningsAside (json : k.format = .json) : ∀ e ∈ warnings h files, k.Aside e := by
  intro e member
  refine Console.jsonAside json ?_
  intro text same
  subst e
  simp [warnings, missingEvents, inaccessibleEvents] at member

/- Without an answer from the checker there is nothing to print. -/
theorem silentReadable {status : Status} {events : List Event} {asked : List (List String)}
    (aside : ∀ e ∈ events, k.Aside e) (unanswered : ∀ paths ∈ asked, ∀ r, c.check paths ≠ .ok r) :
    MachineReadable c ⟨status, events, asked⟩ (k.output .out events) := by
  rw [Console.outputAside aside]
  refine ⟨.inl rfl, ?_, fun paths member r answer => absurd answer (unanswered paths member r)⟩
  constructor
  · intro filled
    contradiction
  · intro answered
    obtain ⟨paths, member, r, answer⟩ := answered
    exact absurd answer (unanswered paths member r)

theorem documentOutput (json : k.format = .json) (h : Host) (files : List String) (r : Report)
    (s : Summary) (strictness : Strictness) :
    k.output .out
        (warnings h files ++ [.report (Report.Document.render r s), .verdict s strictness]) =
      Text.line (Report.Document.render r s) := by
  have aside : ∀ e ∈ [Event.verdict s strictness], k.Aside e := by
    intro e member
    obtain rfl := List.mem_singleton.mp member
    exact Console.jsonAside json (by simp)
  have report := Console.outputReport (k := k) (Report.Document.renderTrimmed r s)
    (Report.Document.renderFilled r s)
  rw [← List.singleton_append, Console.outputAppend, Console.outputAppend,
    Console.outputAside (warningsAside json), Console.outputAside aside, report,
    String.empty_append, String.append_empty]

theorem lineFilled (s : String) : Text.line s ≠ "" := by
  intro empty
  have ended := congrArg String.toList empty
  simp [Text.line] at ended

theorem documentReadable {status : Status} {events : List Event} {paths : List String} {r : Report}
    (answer : c.check paths = .ok r) (out : String)
    (printed : out = Text.line (Report.Document.render r (Summary.ofReport r))) :
    MachineReadable c ⟨status, events, [paths]⟩ out := by
  have spelt := Json.Value.prettySpells
    (Report.Document.documentLawful r (Summary.ofReport r)) 0
  have readable := Report.Document.readRendered r (Summary.ofReport r)
  refine ⟨.inr ⟨_, spelt, printed⟩, ?_, ?_⟩
  · refine ⟨fun _ => ⟨paths, List.mem_singleton_self paths, r, answer⟩, ?_⟩
    intro _ empty
    exact lineFilled _ (printed.symm.trans empty)
  · intro others member s other
    obtain rfl := List.mem_singleton.mp member
    rw [answer] at other
    cases other
    rw [printed, ← Summary.ofReportTotals]
    exact readable

theorem endsReadable (plan : p.format = .json) (json : k.format = .json)
    (ends : Ends h c p files o) : MachineReadable c o (k.output .out o.events) := by
  have rendered : ∀ r s, Report.render h c p.format r s = .ok (Report.Document.render r s) := by
    intro r s
    rw [plan]
    rfl
  have told : ∀ e, (∀ text, e ≠ .report text) → ∀ f ∈ warnings h files ++ [e], k.Aside f := by
    intro e other f member
    rcases List.mem_append.mp member with warned | last
    · exact warningsAside json f warned
    · obtain rfl := List.mem_singleton.mp last
      exact Console.jsonAside json other
  cases ends with
  | noFiles => exact silentReadable (told .noFiles (by simp)) (by simp)
  | nothing named absent => exact silentReadable (told .nothingToCheck (by simp)) (by simp)
  | unchecked there refused =>
    refine silentReadable (told (.checkFailed _) (by simp)) ?_
    intro paths member r answer
    obtain rfl := List.mem_singleton.mp member
    rw [refused] at answer
    cases answer
  | unrendered there checked refused =>
    rw [rendered] at refused
    cases refused
  | judged there checked printed =>
    rw [rendered] at printed
    cases printed
    exact documentReadable checked _ (documentOutput json h files _ _ _)

end Run
end LintGate
