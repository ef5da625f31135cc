import LintGate.Proofs.Json.Octets
import LintGate.Proofs.Report.Severity
/-! The report as octets. What stands between the quotes of a message text need not be UTF-8: it
is read by itself, and the rest of the report is what it is whatever those octets are. -/
namespace LintGate.Report.Native
open LintGate.Json (Value)
open LintGate.Json.Grammar (Part Printed PlainOctet Carries partsRead printedSpells)
open LintGate.Json.Grammar (rawBetween carriesNone carriesRaw carriesArray carriesObject)
open Text.Utf8 (decodeLossy)

/-! ### Files as they are sent -/

/- A message of the engine, with the octets that it sends for the text. -/
structure RawMessage where
  rule : Option String
  level : Nat
  octets : List UInt8
  line : Nat
  column : Nat
  fatal : Bool
  rated : fatal = true ∨ level = 1 ∨ level = 2
  small : level < Nat.pow 2 8 ∧ line < Nat.pow 2 64 ∧ column < Nat.pow 2 64
  plain : ∀ b ∈ octets, PlainOctet b

structure RawFile where
  path : String
  messages : List RawMessage
  errors : Nat
  warnings : Nat
  small : errors < Nat.pow 2 64 ∧ warnings < Nat.pow 2 64

namespace RawMessage

def decoded (m : RawMessage) : Message :=
  ⟨m.rule, m.level, decodeLossy m.octets, m.line, m.column, m.fatal⟩

theorem decodedRated (m : RawMessage) : m.decoded.Rated := m.rated

/- The message but for its text. -/
def bare (m : RawMessage) : RawMessage := { m with octets := [], plain := by simp }

theorem decodedFits (m : RawMessage) : m.decoded.Fits := ⟨m.small.1, m.small.2.1, m.small.2.2⟩

end RawMessage

namespace RawFile

def decoded (f : RawFile) : File :=
  ⟨f.path, f.messages.map RawMessage.decoded, f.errors, f.warnings⟩

/- What the file is reported as: each text is what its own octets are read as. -/
def report (f : RawFile) : FileReport := f.decoded.meant

def bare (f : RawFile) : RawFile := { f with messages := f.messages.map RawMessage.bare }

def octets (f : RawFile) : List (List UInt8) := f.messages.map RawMessage.octets

theorem decodedFits (f : RawFile) : f.decoded.Fits := by
  refine ⟨f.small.1, f.small.2, ?_⟩
  intro m member
  obtain ⟨x, _, rfl⟩ := List.mem_map.mp member
  exact x.decodedFits

theorem decodedRated (f : RawFile) : ∀ m ∈ f.decoded.messages, m.Rated := by
  intro m member
  obtain ⟨x, _, rfl⟩ := List.mem_map.mp member
  exact x.decodedRated

end RawFile

variable {files others : List RawFile} {ps : List Part}

/- Two reports are alike if they are the same but for the octets of the texts. -/
def Alike (files others : List RawFile) : Prop := files.map RawFile.bare = others.map RawFile.bare

/-! ### Documents -/

/- The document has the octets of each message between the quotes of its text. -/
structure Prints (files : List RawFile) (ps : List Part) : Prop where
  states : ∃ before qs after vs, ps = .text before :: (qs ++ [.text after]) ∧
    (∀ c ∈ before.toList, Text.isBlank c = true) ∧ (∀ c ∈ after.toList, Text.isBlank c = true) ∧
    Printed (.value (.array vs)) qs ∧
    List.Forall₂ (fun f v => IsRecord (recordFields f.decoded) v) files vs
  octets : ps.filterMap Part.raw? = files.flatMap RawFile.octets

def decodedText (ps : List Part) : String := String.ofList (ps.flatMap Part.chars)

theorem octetsDecoded (ps : List Part) : decodeLossy (ps.flatMap Part.octets) = decodedText ps :=
  congrArg String.ofList (partsRead ps)

theorem printsStated (prints : Prints files ps) :
    Stated (files.map RawFile.decoded) (decodedText ps) := by
  obtain ⟨before, qs, after, vs, rfl, blankBefore, blankAfter, printed, rows⟩ := prints.states
  refine ⟨before.toList, qs.flatMap Part.chars, after.toList, vs, ?_, blankBefore, blankAfter,
    printedSpells printed, List.forall₂_map_left_iff.mpr rows⟩
  simp [decodedText, Part.chars]

theorem printsRead (prints : Prints files ps) :
    read (decodedText ps) = .ok (files.map RawFile.report) := by
  have fits : ∀ f ∈ files.map RawFile.decoded, f.Fits := by
    intro f member
    obtain ⟨x, _, rfl⟩ := List.mem_map.mp member
    exact x.decodedFits
  have rated : AllRated (files.map RawFile.decoded) := by
    intro f member
    obtain ⟨x, _, rfl⟩ := List.mem_map.mp member
    exact x.decodedRated
  rw [readFiles (statedRead fits (printsStated prints)), filesOk rated, List.map_map]
  rfl

/-! ### Printing -/

/- The record of a message with all its fields, and the octets in each of them. -/
def messageEntries (m : RawMessage) : List (String × Value × List (List UInt8)) :=
  [("ruleId", ruleValue m.rule, []),
   ("severity", .ofNat m.level, []),
   ("message", .text (decodeLossy m.octets), [m.octets]),
   ("line", .ofNat m.line, []),
   ("column", .ofNat m.column, []),
   ("fatal", .boolean m.fatal, [])]

def messageValue (m : RawMessage) : Value :=
  .ofFields ((messageEntries m).map fun e => (e.1, e.2.1))

theorem messageRecord (m : RawMessage) : IsRecord (messageFields m.decoded) (messageValue m) := by
  refine ⟨_, rfl, ?_⟩
  constructor <;> simp [messageFields, messageEntries, RawMessage.decoded]

theorem ruleLawful (rule : Option String) : (ruleValue rule).Lawful := by
  cases rule with
  | none => exact .null
  | some rule => exact .text

theorem messageCarries (m : RawMessage) : Carries (.value (messageValue m)) [m.octets] := by
  have entries : ∀ e ∈ messageEntries m, Carries (.value e.2.1) e.2.2 := by
    simp only [messageEntries, List.forall_mem_cons]
    exact ⟨carriesNone (ruleLawful m.rule), carriesNone (Value.lawfulNat m.level),
      carriesRaw m.plain, carriesNone (Value.lawfulNat m.line),
      carriesNone (Value.lawfulNat m.column), carriesNone .boolean, by simp⟩
  exact carriesObject entries

def fileEntries (f : RawFile) : List (String × Value × List (List UInt8)) :=
  [("filePath", .text f.path, []),
   ("messages", .array (f.messages.map messageValue), f.octets),
   ("errorCount", .ofNat f.errors, []),
   ("warningCount", .ofNat f.warnings, [])]

def fileValue (f : RawFile) : Value := .ofFields ((fileEntries f).map fun e => (e.1, e.2.1))

theorem fileRecord (f : RawFile) : IsRecord (recordFields f.decoded) (fileValue f) := by
  have rows : MessageRows f.decoded.messages (.array (f.messages.map messageValue)) := by
    refine ⟨_, rfl, ?_⟩
    rw [RawFile.decoded, List.forall₂_map_left_iff, List.forall₂_map_right_iff, List.forall₂_same]
    exact fun m _ => messageRecord m
  refine ⟨_, rfl, ?_⟩
  constructor <;> simp [recordFields, fileEntries, rows]
  all_goals simp [RawFile.decoded]

theorem fileCarries (f : RawFile) : Carries (.value (fileValue f)) f.octets := by
  have messages : Carries (.value (.array (f.messages.map messageValue))) f.octets := by
    have rows := carriesArray fun m (_ : m ∈ f.messages) => messageCarries m
    rwa [← List.map_eq_flatMap] at rows
  have entries : ∀ e ∈ fileEntries f, Carries (.value e.2.1) e.2.2 := by
    simp only [fileEntries, List.forall_mem_cons]
    exact ⟨carriesNone .text, messages, carriesNone (Value.lawfulNat f.errors),
      carriesNone (Value.lawfulNat f.warnings), by simp⟩
  have carried : (fileEntries f).flatMap (fun e => e.2.2) = f.octets := by simp [fileEntries]
  exact carried ▸ carriesObject entries

/- There is a document for every report, whatever octets its texts are. -/
theorem printable (files : List RawFile) : ∃ ps, Prints files ps := by
  obtain ⟨ps, printed, carried⟩ := carriesArray fun f (_ : f ∈ files) => fileCarries f
  refine ⟨_, ⟨"", ps, "", files.map fileValue, rfl, by simp, by simp, printed, ?_⟩, ?_⟩
  · rw [List.forall₂_map_right_iff, List.forall₂_same]
    exact fun f _ => fileRecord f
  · rw [rawBetween, carried]

end LintGate.Report.Native
