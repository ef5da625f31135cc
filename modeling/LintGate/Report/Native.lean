import LintGate.Json.Value
import LintGate.Report
import LintGate.Text.Blank
/-! The report as the engine itself prints it: a JSON array with one record a file.
A record is an object, whose unknown keys are passed over, or an array of its fields in order. -/
namespace LintGate.Report.Native
open LintGate.Json (Value)

inductive Defect
  | malformed
  | severity (level : Nat)
  | described (reason : String)
  deriving DecidableEq, Repr

def Defect.message : Defect → String
  | malformed => "the text does not have the form of a report"
  | severity level => "unexpected message severity " ++ Text.decimal level
  | described reason => reason

/-! ### Records -/

/- The fields of a record under the given names, in their order; `none` where one is left out.
A key that is no text, a name given twice and a surplus element are refused. -/
def fields? (names : List String) : Value → Option (List (Option Value))
  | .object members => do
      let keys ← (members.map Prod.fst).mapM id
      if (keys.filter names.contains).Nodup then
        some (names.map fun n => (members.find? fun m => m.1 == some n).map Prod.snd)
      else none
  | .array items =>
      if items.length ≤ names.length then
        some ((items.map some ++ List.replicate names.length none).take names.length)
      else none
  | _ => none

def required {α : Type} (read : Value → Option α) (field : Option Value) : Option α :=
  field.bind read

def defaulted {α : Type} (default : α) (read : Value → Option α) : Option Value → Option α
  | none => some default
  | some v => read v

def text? : Value → Option String
  | .text s => some s
  | _ => none

def nullable {α : Type} (read : Value → Option α) : Value → Option (Option α)
  | .null => some none
  | v => (read v).map some

def boolean? : Value → Option Bool
  | .boolean b => some b
  | _ => none

/- A natural number of at most the given number of bits. -/
def natural? (bits : Nat) (v : Value) : Option Nat := do
  let n ← v.natural?
  if n < Nat.pow 2 bits then some n else none

def list? {α : Type} (read : Value → Option α) : Value → Option (List α)
  | .array items => items.mapM read
  | _ => none

/-! ### Messages and files -/

structure Message where
  rule : Option String
  level : Nat
  text : String
  line : Nat
  column : Nat
  fatal : Bool
  deriving DecidableEq, Repr

def messageNames : List String :=
  ["ruleId", "severity", "message", "line", "column", "fatal"]

def message? (v : Value) : Option Message := do
  match ← fields? messageNames v with
  | [rule, level, text, line, column, fatal] =>
      some { rule := ← defaulted none (nullable text?) rule
             level := ← required (natural? 8) level
             text := ← required text? text
             line := ← defaulted 0 (natural? 64) line
             column := ← defaulted 0 (natural? 64) column
             fatal := ← defaulted false boolean? fatal }
  | _ => none

structure File where
  path : String
  messages : List Message
  errors : Nat
  warnings : Nat
  deriving DecidableEq, Repr

def fileNames : List String := ["filePath", "messages", "errorCount", "warningCount"]

def file? (v : Value) : Option File := do
  match ← fields? fileNames v with
  | [path, messages, errors, warnings] =>
      some { path := ← required text? path
             messages := ← defaulted [] (list? message?) messages
             errors := ← defaulted 0 (natural? 64) errors
             warnings := ← defaulted 0 (natural? 64) warnings }
  | _ => none

/-! ### Meaning -/

/- A fatal message is an error whatever its level; otherwise 2 is an error and 1 a warning. -/
def Message.severity (m : Message) : Except Defect Severity :=
  if m.fatal ∨ m.level = 2 then .ok .error
  else if m.level = 1 then .ok .warning
  else .error (.severity m.level)

def Message.finding (m : Message) : Except Defect Finding := do
  let severity ← m.severity
  return ⟨m.line, m.column, severity, m.text, m.rule, m.fatal⟩

def File.report (f : File) : Except Defect FileReport := do
  let findings ← f.messages.mapM Message.finding
  return ⟨f.path, f.errors, f.warnings, findings⟩

def files? (s : String) : Option (List File) :=
  (Value.read? (Text.trim s)).bind (list? file?)

/- Levels are looked at only once the whole text has been found to be a report. -/
def read (s : String) : Except Defect Report :=
  match files? s with
  | none => .error .malformed
  | some files => files.mapM File.report

end LintGate.Report.Native
