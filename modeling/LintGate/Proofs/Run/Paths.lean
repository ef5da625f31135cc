import LintGate.Proofs.Run.Ending
/-! Every name that a run is given is accounted for once: it is in the one list that the checker is
asked about, or there is a warning about it. That holds on any host and for any checker. -/
namespace LintGate

/- The path that is passed over where an event is the warning of it. -/
def Event.skipped? : Event → Option String
  | .missing path => some path
  | .inaccessible path _ => some path
  | .noFiles | .nothingToCheck | .checkFailed _ | .report _ | .verdict _ _ => none

namespace Run
open Selection (presentIn missingIn inaccessibleIn)

def missingLines (k : Console) (h : Host) (files : List String) : List (Sink × String) :=
  (missingIn h.probe files).map fun path =>
    (k.noticeSink, Text.line (Sign.warning.mark k.colors (Event.missingLine path)))

def inaccessibleLines (k : Console) (h : Host) (files : List String) : List (Sink × String) :=
  (inaccessibleIn h.probe files).map fun (path, fault) =>
    (k.noticeSink,
      Text.line (Sign.warning.mark k.colors (Event.inaccessibleLine path fault.message)))

/- The warnings come first, on any console, and what comes behind them warns of nothing. -/
structure Warned (h : Host) (files : List String) (rest : List Event) (o : Outcome) : Prop where
  events : o.events = missingEvents h files ++ inaccessibleEvents h files ++ rest
  written : ∀ k : Console, o.events.filterMap k.write =
    missingLines k h files ++ inaccessibleLines k h files ++ rest.filterMap k.write
  silent : ∀ e ∈ rest, e.skipped? = none

structure Accounted (h : Host) (files : List String) (o : Outcome) : Prop where
  asked : o.asked = if presentIn h.probe files = [] then [] else [presentIn h.probe files]
  warned : ∃ rest, Warned h files rest o
  once : (o.asked.flatten ++ o.events.filterMap Event.skipped?).Perm files
  apart : ∀ path ∈ o.asked.flatten, path ∉ o.events.filterMap Event.skipped?

variable {h : Host} {c : Checker} {p : Plan} {files : List String} {o : Outcome}

theorem warningsSkip (h : Host) (files : List String) :
    (warnings h files).filterMap Event.skipped? =
      missingIn h.probe files ++ (inaccessibleIn h.probe files).map Prod.fst := by
  simp [warnings, missingEvents, inaccessibleEvents, List.filterMap_map, Function.comp_def,
    Event.skipped?]

theorem warningsWritten (k : Console) (h : Host) (files : List String) :
    (warnings h files).filterMap k.write =
      missingLines k h files ++ inaccessibleLines k h files := by
  simp [warnings, missingEvents, inaccessibleEvents, missingLines, inaccessibleLines,
    List.filterMap_map, Function.comp_def, Console.write, Console.notice]

theorem presentApart {path : String} (there : path ∈ presentIn h.probe files) :
    path ∉ (warnings h files).filterMap Event.skipped? := by
  have present := (Selection.memPresent.mp there).2
  rw [warningsSkip, List.mem_append]
  intro warned
  rcases warned with missing | inaccessible
  · have absent := (Selection.memMissing.mp missing).2
    rw [present] at absent
    cases absent
  · obtain ⟨⟨other, fault⟩, member, rfl⟩ := List.mem_map.mp inaccessible
    have refused := (Selection.memInaccessible.mp member).2
    rw [present] at refused
    cases refused

theorem accountedAsked {rest : List Event} {status : Status} {asked : List (List String)}
    (silent : ∀ e ∈ rest, e.skipped? = none)
    (lists : asked = if presentIn h.probe files = [] then [] else [presentIn h.probe files]) :
    Accounted h files ⟨status, warnings h files ++ rest, asked⟩ := by
  have named : asked.flatten = presentIn h.probe files := by
    rw [lists]
    split
    · rename_i absent
      rw [absent]
      rfl
    · simp
  have skips : (warnings h files ++ rest).filterMap Event.skipped? =
      (warnings h files).filterMap Event.skipped? := by
    rw [List.filterMap_append, List.filterMap_eq_nil_iff.mpr silent, List.append_nil]
  have written : ∀ k : Console, (warnings h files ++ rest).filterMap k.write =
      missingLines k h files ++ inaccessibleLines k h files ++ rest.filterMap k.write := by
    intro k
    rw [List.filterMap_append, warningsWritten]
  refine ⟨lists, ⟨rest, rfl, written, silent⟩, ?_, ?_⟩
  · have parts := Selection.ofNames h.probe files
    rw [Selection.ofParts] at parts
    show (asked.flatten ++ (warnings h files ++ rest).filterMap Event.skipped?).Perm files
    rw [named, skips, warningsSkip]
    exact parts
  · intro path there
    show path ∉ (warnings h files ++ rest).filterMap Event.skipped?
    rw [skips]
    exact presentApart (named ▸ there)

theorem endsAccounted (ends : Ends h c p files o) : Accounted h files o := by
  cases ends with
  | noFiles =>
    have whole : Accounted h [] ⟨.failure, warnings h [] ++ [.noFiles], []⟩ :=
      accountedAsked (by simp [Event.skipped?]) rfl
    exact whole
  | nothing named absent => exact accountedAsked (by simp [Event.skipped?]) (if_pos absent).symm
  | unchecked there refused => exact accountedAsked (by simp [Event.skipped?]) (if_neg there).symm
  | unrendered there checked refused =>
    exact accountedAsked (by simp [Event.skipped?]) (if_neg there).symm
  | judged there checked rendered =>
    exact accountedAsked (by simp [Event.skipped?]) (if_neg there).symm

/- Nothing but the answer on the one list is ever heard of the checker. -/
theorem runHeard {c' : Checker} (style : c'.style = c.style)
    (agree : ∀ paths ∈ (run h c p files).asked, c'.check paths = c.check paths) :
    run h c' p files = run h c p files := by
  obtain ⟨check, rendering⟩ := c
  obtain ⟨check', rendering'⟩ := c'
  cases style
  by_cases absent : presentIn h.probe files = []
  · by_cases named : files = []
    · subst files
      rfl
    · rw [runNothing named absent, runNothing named absent]
  · have asked : presentIn h.probe files ∈ (run h ⟨check, rendering⟩ p files).asked := by
      rw [runChecked absent]
      exact List.mem_singleton_self _
    have answered : Run.check h ⟨check', rendering⟩ p (presentIn h.probe files) =
        Run.check h ⟨check, rendering⟩ p (presentIn h.probe files) := by
      unfold Run.check
      rw [agree _ asked]
      rfl
    rw [runChecked absent, runChecked absent, answered]

theorem refusalTold {e : EngineError} (there : presentIn h.probe files ≠ [])
    (refused : c.check (presentIn h.probe files) = .error e) :
    .checkFailed e ∈ (run h c p files).events := by
  rw [runChecked there]
  simp [check, refused]

theorem pathAccounting (h : Host) (c : Checker) (p : Plan) (files : List String) :
    Accounted h files (run h c p files) ∧
      (∀ e, presentIn h.probe files ≠ [] → c.check (presentIn h.probe files) = .error e →
        .checkFailed e ∈ (run h c p files).events) ∧
      (∀ c' : Checker, c'.style = c.style →
        (∀ paths ∈ (run h c p files).asked, c'.check paths = c.check paths) →
        run h c' p files = run h c p files) :=
  ⟨endsAccounted (runEnds h c p files), fun _ => refusalTold, fun _ => runHeard⟩

end Run
end LintGate
