import LintGate.Engine
import LintGate.Proofs.Ruleset.Document
/-! What one call of the engine comes to, and what is left of it. Its failures have an order: the
command is looked at before the configuration is written, that before the program is started, and
its ending before its report is read. Whichever of them it is, no file stays behind. -/
namespace LintGate

/-! ### Temporary files -/

namespace Scratch

variable {s : Scratch} {name : String}

def Free (s : Scratch) (name : String) : Prop := ∀ f ∈ s.files, f.1 ≠ name

theorem freshFree (s : Scratch) : s.Free s.freshName := by
  intro f member same
  have bound := Text.widestBound (List.mem_map_of_mem (f := Prod.fst) member)
  rw [same] at bound
  simp only [freshName, String.length_append, String.length_ofList, List.length_replicate] at bound
  have prefixed : "jqlint-".length = 7 := rfl
  omega

theorem freePath (free : s.Free name) : ∀ f ∈ s.visible, f.1 ≠ s.path name := by
  intro f member same
  obtain ⟨g, there, rfl⟩ := List.mem_map.mp member
  have joined : s.directory ++ "/" ++ g.1 = s.directory ++ "/" ++ name := same
  exact free g there ((String.append_right_inj _).mp joined)

theorem removeFree (free : s.Free name) : s.remove name = s := by
  have kept : (s.files.filter fun f => f.1 ≠ name) = s.files := by
    rw [List.filter_eq_self]
    exact fun f member => decide_eq_true (free f member)
  rw [remove, kept]

theorem removeAdded (free : s.Free name) (text : String) : (s.add name text).remove name = s := by
  have first : (s.add name text).remove name = s.remove name := by simp [add, remove]
  rw [first, removeFree free]

end Scratch

/- However far the writing comes, taking the file away leaves what was there before. -/
theorem Host.storeUndone (h : Host) {name : String} (free : h.scratch.Free name) (text : String) :
    ∃ during, h.store name text = (h.scratch.fault, during) ∧
      during.remove name = h.scratch := by
  unfold store
  cases h.scratch.fault with
  | none => exact ⟨_, rfl, Scratch.removeAdded free text⟩
  | some fault =>
    cases h.begun with
    | none => exact ⟨_, rfl, Scratch.removeFree free⟩
    | some n => exact ⟨_, rfl, Scratch.removeAdded free _⟩

/-! ### Endings -/
namespace Ending

def Reports (e : Ending) : Prop := e = .exited 0 ∨ e = .exited 1

def code? : Ending → Option Int
  | exited code => some code.toNat
  | signalled => none

end Ending

namespace Engine

/- The complaint is what stands on the error output, or else on the other one. -/
inductive Complains (r : Reply) : String → Prop where
  | said (filled : Text.isBlankText (Text.Utf8.decodeLossy r.stderr) = false) :
      Complains r (Text.trim (Text.Utf8.decodeLossy r.stderr))
  | silent (blank : Text.isBlankText (Text.Utf8.decodeLossy r.stderr) = true) :
      Complains r (Text.trim (Text.Utf8.decodeLossy r.stdout))

theorem complaintSource {r : Reply} {message : String} :
    Complains r message ↔ complaint r = message := by
  have said : Text.isBlankText (Text.Utf8.decodeLossy r.stderr) = false →
      complaint r = Text.trim (Text.Utf8.decodeLossy r.stderr) := by
    intro filled
    refine if_neg ?_
    rw [trimmed, Text.trimNothing, filled]
    decide
  have silent : Text.isBlankText (Text.Utf8.decodeLossy r.stderr) = true →
      complaint r = Text.trim (Text.Utf8.decodeLossy r.stdout) :=
    fun blank => if_pos (Text.trimNothing.mpr blank)
  constructor
  · intro complains
    cases complains with
    | said filled => exact said filled
    | silent blank => exact silent blank
  · rintro rfl
    cases blank : Text.isBlankText (Text.Utf8.decodeLossy r.stderr) with
    | false =>
      rw [said blank]
      exact .said blank
    | true =>
      rw [silent blank]
      exact .silent blank

theorem lowCode {code : UInt8} : code ≤ 1 ↔ code = 0 ∨ code = 1 := by
  constructor
  · intro low
    have bound : code.toNat ≤ 1 := UInt8.le_iff_toNat_le.mp low
    have cases : code.toNat = 0 ∨ code.toNat = 1 := by omega
    rcases cases with zero | one
    · exact .inl (UInt8.toNat_inj.mp zero)
    · exact .inr (UInt8.toNat_inj.mp one)
  · intro which
    rcases which with rfl | rfl <;> decide

theorem answerReporting {r : Reply} (reports : r.ending.Reports) :
    answer r = (Report.Native.read (Text.Utf8.decodeLossy r.stdout)).mapError .unreadable := by
  unfold answer
  rcases reports with zero | one
  · rw [zero]
    rfl
  · rw [one]
    rfl

theorem answerCrashed {r : Reply} (other : ¬ r.ending.Reports) :
    answer r = .error (.crashed r.ending.code? (complaint r)) := by
  unfold answer
  cases ending : r.ending with
  | signalled => rfl
  | exited code =>
    have high : ¬ code ≤ 1 := by
      intro low
      apply other
      rw [ending]
      exact (lowCode.mp low).imp (congrArg Ending.exited) (congrArg Ending.exited)
    simp only [if_neg high, Ending.code?]

/-! ### The call -/

/- The program can be started: there is a command, and the configuration could be written. -/
structure Ready (e : Engine) (h : Host) (paths : List String) (c : Call) : Prop where
  command : ∃ leading, e.command = c.program :: leading ∧
    c = call e.ruleset h c.program leading paths
  writable : h.scratch.fault = none

/- What a check comes to, and the calls that it made. The premises of each case rule out those
above it. -/
inductive Concludes (e : Engine) (h : Host) (paths : List String) :
    Except EngineError Report → List Call → Prop where
  | noCommand (absent : e.command = []) :
      Concludes e h paths (.error (.notStarted "" .noCommand)) []
  | unwritable {fault} (named : e.command ≠ []) (refused : h.scratch.fault = some fault) :
      Concludes e h paths (.error (.configUnwritable fault)) []
  | notStarted {c fault} (ready : Ready e h paths c) (refused : h.launch c = .error fault) :
      Concludes e h paths (.error (.notStarted c.program fault)) []
  | reported {c reply r} (ready : Ready e h paths c) (started : h.launch c = .ok reply)
      (reports : reply.ending.Reports)
      (read : Report.Native.read (Text.Utf8.decodeLossy reply.stdout) = .ok r) :
      Concludes e h paths (.ok r) [c]
  | unreadable {c reply defect} (ready : Ready e h paths c) (started : h.launch c = .ok reply)
      (reports : reply.ending.Reports)
      (refused : Report.Native.read (Text.Utf8.decodeLossy reply.stdout) = .error defect) :
      Concludes e h paths (.error (.unreadable defect)) [c]
  | crashed {c reply message} (ready : Ready e h paths c) (started : h.launch c = .ok reply)
      (other : ¬ reply.ending.Reports) (complains : Complains reply message) :
      Concludes e h paths (.error (.crashed reply.ending.code? message)) [c]

variable {e : Engine} {h : Host} {paths : List String}

theorem checkNoCommand (absent : e.command = []) :
    e.check h paths = ⟨.error (.notStarted "" .noCommand), [], h.scratch⟩ := by
  rw [check, absent]

theorem checkUnwritable {fault : Fault} (named : e.command ≠ [])
    (refused : h.scratch.fault = some fault) :
    e.check h paths = ⟨.error (.configUnwritable fault), [], h.scratch⟩ := by
  obtain ⟨during, stored, undone⟩ := h.storeUndone h.scratch.freshFree e.ruleset.configText
  cases command : e.command with
  | nil => contradiction
  | cons program leading => simp only [check, command, stored, refused, undone]

theorem checkReady {c : Call} (ready : Ready e h paths c) :
    e.check h paths = match h.launch c with
      | .error fault => ⟨.error (.notStarted c.program fault), [], h.scratch⟩
      | .ok reply => ⟨answer reply, [c], h.scratch⟩ := by
  obtain ⟨during, stored, undone⟩ := h.storeUndone h.scratch.freshFree e.ruleset.configText
  obtain ⟨leading, command, same⟩ := ready.command
  cases launched : h.launch c with
  | error fault => simp only [check, command, stored, ready.writable, undone, ← same, launched]
  | ok reply => simp only [check, command, stored, ready.writable, undone, ← same, launched]

theorem readyNamed {program : String} {leading : List String}
    (command : e.command = program :: leading) (writable : h.scratch.fault = none) :
    Ready e h paths (call e.ruleset h program leading paths) :=
  ⟨⟨leading, command, rfl⟩, writable⟩

theorem checkCases (e : Engine) (h : Host) (paths : List String) :
    e.command = [] ∨ (e.command ≠ [] ∧ ∃ fault, h.scratch.fault = some fault) ∨
      ∃ c, Ready e h paths c := by
  cases command : e.command with
  | nil => exact .inl rfl
  | cons program leading =>
    cases writable : h.scratch.fault with
    | some fault => exact .inr (.inl ⟨by simp, fault, rfl⟩)
    | none => exact .inr (.inr ⟨_, readyNamed command writable⟩)

theorem checkRestores (e : Engine) (h : Host) (paths : List String) :
    (e.check h paths).scratch = h.scratch := by
  rcases checkCases e h paths with absent | ⟨named, fault, refused⟩ | ⟨c, ready⟩
  · rw [checkNoCommand absent]
  · rw [checkUnwritable named refused]
  · rw [checkReady ready]
    cases h.launch c <;> rfl

theorem checkConcludes (e : Engine) (h : Host) (paths : List String) :
    Concludes e h paths (e.check h paths).result (e.check h paths).calls := by
  rcases checkCases e h paths with absent | ⟨named, fault, refused⟩ | ⟨c, ready⟩
  · rw [checkNoCommand absent]
    exact .noCommand absent
  · rw [checkUnwritable named refused]
    exact .unwritable named refused
  · rw [checkReady ready]
    cases started : h.launch c with
    | error fault => exact .notStarted ready started
    | ok reply =>
      by_cases reports : reply.ending.Reports
      · dsimp only
        rw [answerReporting reports]
        cases read : Report.Native.read (Text.Utf8.decodeLossy reply.stdout) with
        | error defect => exact .unreadable ready started reports read
        | ok r => exact .reported ready started reports read
      · dsimp only
        rw [answerCrashed reports]
        exact .crashed ready started reports (complaintSource.mpr rfl)

theorem concludesCheck {result : Except EngineError Report} {calls : List Call}
    (concludes : Concludes e h paths result calls) :
    e.check h paths = ⟨result, calls, h.scratch⟩ := by
  cases concludes with
  | noCommand absent => exact checkNoCommand absent
  | unwritable named refused => exact checkUnwritable named refused
  | notStarted ready refused => rw [checkReady ready, refused]
  | reported ready started reports read =>
    rw [checkReady ready, started]
    dsimp only
    rw [answerReporting reports, read]
    rfl
  | unreadable ready started reports refused =>
    rw [checkReady ready, started]
    dsimp only
    rw [answerReporting reports, refused]
    rfl
  | crashed ready started other complains =>
    rw [checkReady ready, started]
    dsimp only
    rw [answerCrashed other, complaintSource.mp complains]

theorem checkSource {result : Except EngineError Report} {calls : List Call} :
    Concludes e h paths result calls ↔
      (e.check h paths).result = result ∧ (e.check h paths).calls = calls := by
  constructor
  · intro concludes
    rw [concludesCheck concludes]
    exact ⟨rfl, rfl⟩
  · rintro ⟨rfl, rfl⟩
    exact checkConcludes e h paths

/-! ### The configuration of a call -/

/- The words between the configuration and the paths. -/
def options (rules : Ruleset) (directory : String) : List String :=
  ["--resolve-plugins-relative-to", directory, "--format", "json"] ++
    if rules.localConfig then [] else ["--no-eslintrc"]

theorem callArguments (rules : Ruleset) (h : Host) (program : String)
    (leading paths : List String) :
    (call rules h program leading paths).arguments =
      leading ++ "--config" :: h.scratch.path h.scratch.freshName :: options rules h.directory ++
        "--" :: paths := by
  simp [call, arguments, options]

/- The one file that is there during the call and not before it holds the rule set. -/
structure Configured (e : Engine) (h : Host) (paths : List String) (path : String) (c : Call) :
    Prop where
  words : ∃ leading own, e.command = c.program :: leading ∧
    c.arguments = leading ++ "--config" :: path :: own ++ "--" :: paths
  added : c.files = (path, e.ruleset.document.pretty) :: h.scratch.visible
  new : ∀ f ∈ h.scratch.visible, f.1 ≠ path

theorem readyConfigured {c : Call} (ready : Ready e h paths c) :
    Configured e h paths (h.scratch.path h.scratch.freshName) c := by
  obtain ⟨leading, command, same⟩ := ready.command
  refine ⟨⟨leading, options e.ruleset h.directory, command, ?_⟩, ?_,
    Scratch.freePath h.scratch.freshFree⟩
  · rw [same]
    exact callArguments e.ruleset h c.program leading paths
  · rw [same]
    rfl

theorem concludesOnce {result : Except EngineError Report} {calls : List Call}
    (concludes : Concludes e h paths result calls) :
    calls.length ≤ 1 ∧ ∀ c ∈ calls, Ready e h paths c := by
  cases concludes with
  | noCommand | unwritable | notStarted => simp
  | reported ready | unreadable ready | crashed ready => simpa using ready

end Engine
end LintGate
