import LintGate.Proofs.Stages
import LintGate.Proofs.Text.Decoding
import LintGate.Settings.File
/-! What loading a settings file depends on: its notation, which is marked by the extension, and
its text, if there is any. -/
namespace LintGate

/- The extensions under which files of a notation are saved. -/
def Notation.extensions : Notation → List String
  | .toml => ["toml"]
  | .yaml => ["yaml", "yml"]

def Notation.Marks (n : Notation) (path : String) : Prop :=
  ∃ e, Path.extension? path = some e ∧ Text.asciiLower e ∈ n.extensions

namespace Settings

def Stored (read : String → Except Fault (List UInt8)) (path text : String) : Prop :=
  read path = .ok (Text.Utf8.encode text)

/- No text is to be had: nothing can be read, or what is read is not UTF-8. -/
inductive Unreadable (read : String → Except Fault (List UInt8)) (path : String) :
    Fault → Prop where
  | refused {fault} (refused : read path = .error fault) : Unreadable read path fault
  | garbled {octets} (there : read path = .ok octets)
      (garbled : ∀ text, Text.Utf8.encode text ≠ octets) : Unreadable read path .notUtf8

variable {read : String → Except Fault (List UInt8)} {s : Settings} {path text : String}
  {fault : Fault} {n : Notation}

theorem notationMarks : notation? path = some n ↔ n.Marks path := by
  constructor
  · intro found
    unfold notation? at found
    split at found <;> cases found
    all_goals
      rename_i extended
      obtain ⟨e, extension, lower⟩ := Option.map_eq_some_iff.mp extended
      exact ⟨e, extension, by simp [lower, Notation.extensions]⟩
  · intro marks
    obtain ⟨e, extension, known⟩ := marks
    rw [notation?, extension, Option.map_some]
    generalize Text.asciiLower e = lower at known
    cases n with
    | toml =>
      obtain rfl := List.mem_singleton.mp known
      rfl
    | yaml => rcases List.mem_pair.mp known with rfl | rfl <;> rfl

theorem textStored : readText read path = .ok text ↔ Stored read path text := by
  unfold readText Stored
  cases read path with
  | error fault => simp [bind, Except.bind]
  | ok octets =>
    rw [Except.ok.injEq, eq_comm (a := octets), ← Text.Utf8.decodesText]
    simp only [bind, Except.bind]
    cases Text.Utf8.decode? octets with
    | none => simp [throw, throwThe, MonadExceptOf.throw]
    | some t => simp [pure, Except.pure]

theorem textUnreadable : readText read path = .error fault ↔ Unreadable read path fault := by
  constructor
  · intro failed
    unfold readText at failed
    rcases bindError failed with refused | ⟨octets, there, failed⟩
    · exact .refused refused
    · cases decoded : Text.Utf8.decode? octets with
      | none =>
        rw [decoded] at failed
        cases failed
        exact .garbled there (Text.Utf8.decodesNothing.mp decoded)
      | some t =>
        rw [decoded] at failed
        cases failed
  · intro unreadable
    unfold readText
    cases unreadable with
    | refused refused => rw [refused]; rfl
    | garbled there garbled =>
      rw [there]
      simp only [bind, Except.bind, Text.Utf8.decodesNothing.mpr garbled]
      rfl

theorem loadOk : load read path = .ok s ↔
    ∃ n text, Notation.Marks n path ∧ Stored read path text ∧ ofText? n text = some s := by
  unfold load
  simp only [← notationMarks, ← textStored]
  constructor
  · intro loaded
    cases written : notation? path with
    | none => simp [written] at loaded
    | some n =>
      cases stored : readText read path with
      | error fault => simp [written, stored] at loaded
      | ok text =>
        cases stated : ofText? n text with
        | none => simp [written, stored, stated] at loaded
        | some s' =>
          simp only [written, stored, stated] at loaded
          cases loaded
          exact ⟨n, text, rfl, rfl, stated⟩
  · intro parts
    obtain ⟨n, text, written, stored, stated⟩ := parts
    simp only [written, stored, stated]

end Settings
end LintGate
