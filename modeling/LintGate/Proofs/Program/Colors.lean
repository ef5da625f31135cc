import LintGate.Proofs.Program.Calls
import LintGate.Proofs.Report.Coloring
import LintGate.Proofs.Run.Streams
/-! Colours only add. A run in colours and the same run without them write the same to each sink,
once the sequences have been taken out. The stylish report alone is not spoken of here: it trims
its rows after it has coloured them. -/
namespace LintGate
open Text (EscapeFree Colored Trimmed)

/-! ### Events -/

theorem Fault.messageFree {f : Fault}
    (described : ∀ words, f = .described words → EscapeFree words) : EscapeFree f.message := by
  cases f with
  | described words => exact described words rfl
  | _ => decide

namespace Event

/- An event in whose words there is no escape character. That does not go for reports. -/
inductive Spoken : Event → Prop where
  | noFiles : Spoken .noFiles
  | missing {path} (free : EscapeFree path) : Spoken (.missing path)
  | inaccessible {path reason} (free : EscapeFree path) (told : EscapeFree reason) :
      Spoken (.inaccessible path reason)
  | nothingToCheck : Spoken .nothingToCheck
  | checkFailed {e : EngineError} (told : EscapeFree e.message) : Spoken (.checkFailed e)
  | verdict (s strictness) : Spoken (.verdict s strictness)

/- The same event in colours and without. -/
inductive Alike : Event → Event → Prop where
  | spoken {e} (free : e.Spoken) : Alike e e
  | report {s t} (trimmed : Trimmed s t) : Alike (.report s) (.report t)

theorem failedFree (s : Summary) (strictness : Strictness) :
    EscapeFree (failedLine s strictness) := by
  have opening : EscapeFree "ESLint failed: " := by decide
  cases strictness with
  | errors => exact opening.append (Text.lacksPlural (by decide) _ rfl)
  | warnings =>
    exact ((opening.append (Text.lacksPlural (by decide) _ rfl)).append (by decide)).append
      (Text.lacksPlural (by decide) _ rfl)

theorem passedFree (s : Summary) : EscapeFree (passedLine s) := by
  have opening : EscapeFree "ESLint passed (" := by decide
  exact (opening.append (Text.lacksPlural (by decide) _ rfl)).append (by decide)

end Event

/-! ### Sinks -/
namespace Console

/- What is written in colours and what without: to one sink, or to none. -/
inductive Painted : Option (Sink × String) → Option (Sink × String) → Prop where
  | none : Painted none none
  | some {sink s t} (colored : Colored s.toList t.toList) :
      Painted (some (sink, s)) (some (sink, t))

theorem lineColored {s t : String} (colored : Colored s.toList t.toList) :
    Colored (Text.line s).toList (Text.line t).toList := by
  rw [Text.line, Text.line, String.toList_append, String.toList_append]
  exact Text.coloredAppend colored (Text.coloredSelf (by decide))

theorem markColored (s : Sign) {line : String} (free : EscapeFree line) :
    Colored (s.mark true line).toList (s.mark false line).toList := by
  have text : EscapeFree s.text := by cases s <;> decide
  have space : EscapeFree " " := by decide
  have rest := space.append free
  have whole := Text.coloredAppend (Text.inkColored [.bold, s.color] text) (Text.coloredSelf rest)
  simpa only [Sign.mark, String.toList_append, List.append_assoc] using whole

theorem noticePainted (f : Format) (s : Sign) {line : String} (free : EscapeFree line) :
    Painted ((⟨f, true⟩ : Console).notice s line) ((⟨f, false⟩ : Console).notice s line) :=
  .some (lineColored (markColored s free))

theorem errorPainted (f : Format) {line : String} (free : EscapeFree line) :
    Painted ((⟨f, true⟩ : Console).error line) ((⟨f, false⟩ : Console).error line) :=
  .some (lineColored (markColored .error free))

theorem reportPainted {s t : String} (trimmed : Trimmed s t) :
    Painted (report s) (report t) := by
  unfold report
  by_cases blank : Text.trimEnd s = ""
  · rw [if_pos blank, if_pos (trimmed.blank.mp blank)]
    exact .none
  · rw [if_neg blank, if_neg fun same => blank (trimmed.blank.mpr same)]
    exact .some (lineColored trimmed.colored)

theorem spokenPainted (f : Format) {e : Event} (free : e.Spoken) :
    Painted ((⟨f, true⟩ : Console).write e) ((⟨f, false⟩ : Console).write e) := by
  cases free with
  | noFiles => exact errorPainted f (by decide)
  | missing free =>
    have opening : EscapeFree "file not found, skipping: " := by decide
    exact noticePainted f .warning (opening.append free)
  | inaccessible free told =>
    have opening : EscapeFree "cannot access " := by decide
    exact noticePainted f .warning
      ((((opening.append free).append (by decide)).append told).append (by decide))
  | nothingToCheck => exact noticePainted f .info (by decide)
  | checkFailed told =>
    have opening : EscapeFree "ESLint execution failed: " := by decide
    exact errorPainted f (opening.append told)
  | verdict s strictness =>
    rw [write, write]
    split
    · exact errorPainted f (Event.failedFree s strictness)
    · exact noticePainted f .passed (Event.passedFree s)

theorem alikePainted (f : Format) {e e' : Event} (alike : e.Alike e') :
    Painted ((⟨f, true⟩ : Console).write e) ((⟨f, false⟩ : Console).write e') := by
  cases alike with
  | spoken free => exact spokenPainted f free
  | report trimmed => exact reportPainted trimmed

theorem oneColored {k k' : Console} {e e' : Event} (painted : Painted (k.write e) (k'.write e'))
    (sink : Sink) : Colored (k.output sink [e]).toList (k'.output sink [e']).toList := by
  generalize one : k.write e = w at painted
  generalize other : k'.write e' = w' at painted
  rw [outputWrites, outputWrites]
  cases painted with
  | none =>
    rw [writesNone one, writesNone other]
    exact .nil
  | some colored =>
    rw [writesOne one, writesOne other]
    split
    · simpa using colored
    · exact .nil

theorem outputColored (f : Format) (sink : Sink) {es es' : List Event}
    (alike : List.Forall₂ Event.Alike es es') :
    Colored ((⟨f, true⟩ : Console).output sink es).toList
      ((⟨f, false⟩ : Console).output sink es').toList := by
  induction alike with
  | nil => exact .nil
  | @cons e e' es es' head tail ih =>
    rw [← List.singleton_append, ← List.singleton_append (l := es'), outputAppend, outputAppend,
      String.toList_append, String.toList_append]
    exact Text.coloredAppend (oneColored (alikePainted f head) sink) ih

end Console

/-! ### A run -/
namespace Program
open Selection (presentIn missingIn inaccessibleIn)

def rendering (directory : String) (colors : Bool) (f : Format) (r : Report) : String :=
  match f.style? with
  | some style => style.render directory colors r
  | none =>
      if f = .json then Report.Document.render r (Summary.ofReport r)
      else Report.Plain.render directory colors r

/- No text that a run could show has an escape character. Of the faults of the system only those
count that it words itself. -/
structure Unescaped (h : Host) (p : Plan) (files : List String) : Prop where
  paths : ∀ path ∈ files, EscapeFree path
  faults : ∀ path ∈ files, ∀ words, h.probe path = .error (.described words) → EscapeFree words
  report : ∀ r, ((engine p).check h (presentIn h.probe files)).result = .ok r → r.EscapeFree
  errors : ∀ e, ((engine p).check h (presentIn h.probe files)).result = .error e →
    EscapeFree e.message

variable {h : Host} {p : Plan} {files : List String}

def tinted (h : Host) (colors : Bool) : Host := { h with colors }

theorem tintedRender (h : Host) (colors : Bool) (p : Plan) (f : Format) (r : Report) :
    Report.render (tinted h colors) ((engine p).checker (tinted h colors)) f r
      (Summary.ofReport r) = .ok (rendering h.directory colors f r) := by
  unfold Report.render rendering
  cases asked : f.style? with
  | some style =>
    show Engine.style (tinted h colors) r style.name = _
    simp only [Engine.style, Style.ofNameName]
    rfl
  | none =>
    dsimp only
    split <;> rfl

/- What a run tells is the same in colours, but for the text of its report. -/
theorem tintedEvents (h : Host) (colors : Bool) (p : Plan) (files : List String) :
    (runPlan (tinted h colors) p files).1.events =
      if files = [] then [.noFiles]
      else if presentIn h.probe files = [] then Run.warnings h files ++ [.nothingToCheck]
      else Run.warnings h files ++
        match ((engine p).check h (presentIn h.probe files)).result with
        | .error e => [.checkFailed e]
        | .ok r => [.report (rendering h.directory colors p.format r),
            .verdict (Summary.ofReport r) p.strictness] := by
  show (LintGate.run (tinted h colors) ((engine p).checker (tinted h colors)) p files).events = _
  by_cases unnamed : files = []
  · subst files
    rfl
  by_cases absent : presentIn h.probe files = []
  · rw [if_neg unnamed, if_pos absent, Run.runNothing (h := tinted h colors) unnamed absent]
    rfl
  · rw [if_neg unnamed, if_neg absent, Run.runChecked (h := tinted h colors) absent]
    show Run.warnings h files ++ _ = _
    congr 1
    have same : ((engine p).checker (tinted h colors)).check (presentIn h.probe files) =
        ((engine p).check h (presentIn h.probe files)).result := rfl
    show (Run.check _ _ p (presentIn h.probe files)).2 = _
    rw [Run.check, same]
    cases answer : ((engine p).check h (presentIn h.probe files)).result with
    | error e => rfl
    | ok r => simp only [Run.conclude, tintedRender]

theorem warningsSpoken (plain : Unescaped h p files) :
    ∀ e ∈ Run.warnings h files, e.Spoken := by
  intro e member
  rcases List.mem_append.mp member with missing | inaccessible
  · obtain ⟨path, absent, rfl⟩ := List.mem_map.mp missing
    exact .missing (plain.paths path (Selection.memMissing.mp absent).1)
  · obtain ⟨⟨path, fault⟩, refused, rfl⟩ := List.mem_map.mp inaccessible
    obtain ⟨named, answer⟩ := Selection.memInaccessible.mp refused
    refine .inaccessible (plain.paths path named) (Fault.messageFree ?_)
    rintro words rfl
    exact plain.faults path named words answer

theorem renderingTrimmed (directory : String) {f : Format} (other : f ≠ .stylish) {r : Report}
    (free : r.EscapeFree) :
    Trimmed (rendering directory true f r) (rendering directory false f r) := by
  cases f with
  | stylish => contradiction
  | compact => exact Text.freeTrimmed (Report.compactFree free)
  | unix => exact Text.freeTrimmed (Report.unixFree free)
  | json => exact Text.freeTrimmed (Report.documentFree r _)
  | plain => exact Report.plainTrimmed directory free

theorem spokenAlike {es : List Event} (spoken : ∀ e ∈ es, e.Spoken) :
    List.Forall₂ Event.Alike es es :=
  List.forall₂_same.mpr fun e member => .spoken (spoken e member)

theorem eventsAlike (other : p.format ≠ .stylish) (plain : Unescaped h p files) :
    List.Forall₂ Event.Alike (runPlan (tinted h true) p files).1.events
      (runPlan (tinted h false) p files).1.events := by
  have warned := spokenAlike (warningsSpoken plain)
  rw [tintedEvents, tintedEvents]
  split
  · exact .cons (.spoken .noFiles) .nil
  split
  · exact List.rel_append warned (.cons (.spoken .nothingToCheck) .nil)
  · refine List.rel_append warned ?_
    cases answer : ((engine p).check h (presentIn h.probe files)).result with
    | error e => exact .cons (.spoken (.checkFailed (plain.errors e answer))) .nil
    | ok r =>
      exact .cons (.report (renderingTrimmed h.directory other (plain.report r answer)))
        (.cons (.spoken (.verdict _ _)) .nil)

theorem colorsOnlyAdd (h : Host) (p : Plan) (files : List String) (other : p.format ≠ .stylish)
    (plain : Unescaped h p files) :
    Text.strip (perform (tinted h true) p files).stdout =
      (perform (tinted h false) p files).stdout ∧
    Text.strip (perform (tinted h true) p files).stderr =
      (perform (tinted h false) p files).stderr := by
  have stripped (sink : Sink) : Text.strip ((⟨p.format, true⟩ : Console).output sink
      (runPlan (tinted h true) p files).1.events) = (⟨p.format, false⟩ : Console).output sink
      (runPlan (tinted h false) p files).1.events := by
    have colored := Console.outputColored p.format sink (eventsAlike other plain)
    rw [Text.strip, Text.coloredStrip colored, String.ofList_toList]
  exact ⟨stripped .out, stripped .err⟩

/- The one finding has a text of white space only and no rule, so that its row ends in its label. -/
def blankFinding : Report := [⟨"/work/a.js", 0, 0, [⟨0, 0, .warning, " ", none, false⟩]⟩]

def blankFindingText : String :=
  "[\x7b\"filePath\":\"/work/a.js\",\"messages\":[\x7b\"severity\":1,\"message\":\" \"\x7d]\x7d]"

theorem colorsOnlyAddSample :
    let h := givenHost "" blankFindingText
    let p := { Plan.usual with format := .plain }
    p.format ≠ .stylish ∧ Unescaped h p ["a.js"] ∧
      Text.strip (perform (tinted h true) p ["a.js"]).stdout =
        (perform (tinted h false) p ["a.js"]).stdout ∧
      Text.strip (perform (tinted h true) p ["a.js"]).stderr =
        (perform (tinted h false) p ["a.js"]).stderr := by
  intro h p
  have other : p.format ≠ .stylish := by decide
  have answer : ((engine p).check h (presentIn h.probe ["a.js"])).result = .ok blankFinding := by
    decide +kernel
  have plain : Unescaped h p ["a.js"] := by
    refine ⟨by decide, ?_, ?_, ?_⟩
    · intro path _ words refused
      cases refused
    · intro r found
      rw [answer] at found
      cases found
      intro f member
      obtain rfl := List.mem_singleton.mp member
      refine ⟨by decide, fun x found => ?_⟩
      obtain rfl := List.mem_singleton.mp found
      exact ⟨by decide, by simp⟩
    · intro e refused
      rw [answer] at refused
      cases refused
  exact ⟨other, plain, colorsOnlyAdd h p ["a.js"] other plain⟩

end Program
end LintGate
