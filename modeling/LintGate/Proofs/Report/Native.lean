import Mathlib.Data.List.Forall2
import LintGate.Proofs.Json.Printing
import LintGate.Proofs.Stages
import LintGate.Report.Native
/-! Reading undoes writing for the report that the engine prints. `Stated` says which texts state
its files: records with their fields in any order, with fields left out that hold their default and
with other keys among them, in every spelling that JSON allows and white space around the whole.
`Written` says the same of the report that the files stand for. -/
namespace LintGate.Report.Native
open LintGate.Json (Value)
open LintGate.Json.Grammar (Spells Spelling Content quoted)
open LintGate.Json.Grammar (spacesNone spacesOne spellsBare arrayBracketed)

/-! ### Records -/

structure Field where
  name : String
  holds : Value → Prop
  optional : Prop

/- Each field stands there at most once and is left out only if it may be. Nothing is said of the
keys that are not the name of a field. -/
structure States (fields : List Field) (members : List (String × Value)) : Prop where
  once : ∀ f ∈ fields, (members.map Prod.fst).count f.name ≤ 1
  held : ∀ f ∈ fields, ∀ v, (f.name, v) ∈ members → f.holds v
  present : ∀ f ∈ fields, f.optional ∨ ∃ v, (f.name, v) ∈ members

def IsRecord (fields : List Field) (v : Value) : Prop :=
  ∃ members, v = .ofFields members ∧ States fields members

def Field.Found (f : Field) : Option Value → Prop
  | none => f.optional
  | some v => f.holds v

theorem lookupFound {fields members} (h : States fields members) {f} (member : f ∈ fields) :
    f.Found (members.lookup f.name) := by
  cases found : members.lookup f.name with
  | some v =>
    obtain ⟨before, after, rfl, _⟩ := List.lookup_eq_some_iff.mp found
    exact h.held f member v (by simp)
  | none =>
    rcases h.present f member with optional | ⟨v, there⟩
    · exact optional
    · have absent := List.lookup_eq_none_iff.mp found _ there
      simp at absent

theorem keysRead (members : List (String × Value)) :
    ((members.map fun m => (some m.1, m.2)).map Prod.fst).mapM id =
      some (members.map Prod.fst) := by
  have keys : (members.map fun m => (some m.1, m.2)).map Prod.fst =
      (members.map Prod.fst).map some := by simp
  rw [keys]
  exact elementsRead fun _ _ => rfl

theorem lookupRead (members : List (String × Value)) (n : String) :
    ((members.map fun m => (some m.1, m.2)).find? fun m => m.1 == some n).map Prod.snd =
      members.lookup n := by
  induction members with
  | nil => rfl
  | cons m members ih =>
    rw [List.map_cons, List.find?_cons, List.lookup_cons]
    have same : (some m.1 == some n) = (n == m.1) := by rw [Option.some_beq_some, BEq.comm]
    rw [same]
    cases n == m.1 with
    | true => rfl
    | false => exact ih

theorem fieldsRead {fields members} (h : States fields members) :
    fields? (fields.map Field.name) (.ofFields members) =
      some (fields.map fun f => members.lookup f.name) := by
  have distinct : ((members.map Prod.fst).filter (fields.map Field.name).contains).Nodup := by
    rw [List.nodup_iff_count]
    intro key
    by_cases known : key ∈ fields.map Field.name
    · obtain ⟨f, member, rfl⟩ := List.mem_map.mp known
      exact Nat.le_trans (List.filter_sublist.count_le _) (h.once f member)
    · rw [List.count_eq_zero.mpr (by simp [known])]
      exact Nat.zero_le 1
  rw [Value.ofFields, fields?, keysRead, Option.bind_eq_bind, Option.bind_some, if_pos distinct,
    List.map_map]
  exact congrArg some (List.map_congr_left fun f _ => lookupRead members f.name)

theorem defaultedRead {α : Type} {read : Value → Option α} {f : Field} {x default : α}
    {field : Option Value} (found : f.Found field) (usual : f.optional → x = default)
    (reads : ∀ v, f.holds v → read v = some x) : defaulted default read field = some x := by
  cases field with
  | none => rw [usual found]; rfl
  | some v => exact reads v found

section Plain

variable {α : Type} {read : Value → Option α} {name : String} {value : Value} {x default : α}
  {field : Option Value}

theorem requiredPlain (found : Field.Found ⟨name, (· = value), False⟩ field)
    (reads : read value = some x) : required read field = some x := by
  cases field with
  | none => exact absurd found id
  | some v =>
    cases found
    exact reads

theorem defaultedPlain (found : Field.Found ⟨name, (· = value), x = default⟩ field)
    (reads : read value = some x) : defaulted default read field = some x := by
  refine defaultedRead found id ?_
  intro v same
  cases same
  exact reads

end Plain

/-! ### Messages -/

def ruleValue : Option String → Value
  | some rule => .text rule
  | none => .null

def messageFields (m : Message) : List Field :=
  [⟨"ruleId", (· = ruleValue m.rule), m.rule = none⟩,
   ⟨"severity", (· = .ofNat m.level), False⟩,
   ⟨"message", (· = .text m.text), False⟩,
   ⟨"line", (· = .ofNat m.line), m.line = 0⟩,
   ⟨"column", (· = .ofNat m.column), m.column = 0⟩,
   ⟨"fatal", (· = .boolean m.fatal), m.fatal = false⟩]

structure Message.Fits (m : Message) : Prop where
  level : m.level < Nat.pow 2 8
  line : m.line < Nat.pow 2 64
  column : m.column < Nat.pow 2 64

theorem naturalRead {bits n : Nat} (small : n < Nat.pow 2 bits) :
    natural? bits (.ofNat n) = some n := by
  simp only [natural?, Value.natural?, Value.ofNat, Text.decimalRead, Option.bind_eq_bind,
    Option.bind_some]
  exact if_pos small

theorem ruleRead (rule : Option String) : nullable text? (ruleValue rule) = some rule := by
  cases rule <;> rfl

theorem textRead (s : String) : text? (.text s) = some s := rfl

theorem booleanRead (b : Bool) : boolean? (.boolean b) = some b := rfl

theorem messageRead {m : Message} (fits : m.Fits) {v : Value}
    (record : IsRecord (messageFields m) v) : message? v = some m := by
  obtain ⟨members, rfl, states⟩ := record
  have fields : fields? messageNames (.ofFields members) = _ := fieldsRead states
  have found := fun g member => lookupFound states (f := g) member
  simp only [messageFields, List.mem_cons, List.not_mem_nil, or_false, forall_eq_or_imp,
    forall_eq] at found
  obtain ⟨rule, level, text, line, column, fatal⟩ := found
  have rule := defaultedPlain rule (ruleRead m.rule)
  have level := requiredPlain level (naturalRead fits.level)
  have text := requiredPlain text (textRead m.text)
  have line := defaultedPlain line (naturalRead fits.line)
  have column := defaultedPlain column (naturalRead fits.column)
  have fatal := defaultedPlain fatal (booleanRead m.fatal)
  simp only [message?, fields, messageFields, List.map_cons, List.map_nil, Option.bind_eq_bind,
    Option.bind_some, rule, level, text, line, column, fatal]

/-! ### Files -/

theorem rowsRead {α : Type} {R : α → Value → Prop} {read : Value → Option α} {xs : List α}
    {vs : List Value} (rows : List.Forall₂ R xs vs)
    (reads : ∀ x ∈ xs, ∀ v, R x v → read v = some x) : list? read (.array vs) = some xs := by
  show vs.mapM read = some xs
  induction rows with
  | nil => rfl
  | @cons x v xs vs row rows ih =>
    have head := reads x (by simp) v row
    have tail := ih (fun y member => reads y (by simp [member]))
    simp [List.mapM_cons, head, tail]

def MessageRows (ms : List Message) (v : Value) : Prop :=
  ∃ vs, v = .array vs ∧ List.Forall₂ (fun m v => IsRecord (messageFields m) v) ms vs

theorem messagesRead {ms : List Message} (fits : ∀ m ∈ ms, m.Fits) {v : Value}
    (h : MessageRows ms v) : list? message? v = some ms := by
  obtain ⟨vs, rfl, rows⟩ := h
  exact rowsRead rows (fun m member v record => messageRead (fits m member) record)

def recordFields (f : File) : List Field :=
  [⟨"filePath", (· = .text f.path), False⟩,
   ⟨"messages", MessageRows f.messages, f.messages = []⟩,
   ⟨"errorCount", (· = .ofNat f.errors), f.errors = 0⟩,
   ⟨"warningCount", (· = .ofNat f.warnings), f.warnings = 0⟩]

structure File.Fits (f : File) : Prop where
  errors : f.errors < Nat.pow 2 64
  warnings : f.warnings < Nat.pow 2 64
  messages : ∀ m ∈ f.messages, m.Fits

theorem fileRead {f : File} (fits : f.Fits) {v : Value} (record : IsRecord (recordFields f) v) :
    file? v = some f := by
  obtain ⟨members, rfl, states⟩ := record
  have fields : fields? fileNames (.ofFields members) = _ := fieldsRead states
  have found := fun g member => lookupFound states (f := g) member
  simp only [recordFields, List.mem_cons, List.not_mem_nil, or_false, forall_eq_or_imp,
    forall_eq] at found
  obtain ⟨path, messages, errors, warnings⟩ := found
  have path := requiredPlain path (textRead f.path)
  have messages : defaulted [] (list? message?) _ = some f.messages :=
    defaultedRead messages id (fun _ h => messagesRead fits.messages h)
  have errors := defaultedPlain errors (naturalRead fits.errors)
  have warnings := defaultedPlain warnings (naturalRead fits.warnings)
  simp only [file?, fields, recordFields, List.map_cons, List.map_nil, Option.bind_eq_bind,
    Option.bind_some, path, messages, errors, warnings]

/-! ### Findings -/

def levelOf : Severity → Nat
  | .error => 2
  | .warning => 1

def findingFields (f : Finding) : List Field :=
  [⟨"ruleId", (· = ruleValue f.rule), f.rule = none⟩,
   ⟨"severity", (· = .ofNat (levelOf f.severity)), False⟩,
   ⟨"message", (· = .text f.text), False⟩,
   ⟨"line", (· = .ofNat f.line), f.line = 0⟩,
   ⟨"column", (· = .ofNat f.column), f.column = 0⟩,
   ⟨"fatal", (· = .boolean f.fatal), f.fatal = false⟩]

/- What can be stated at all: numbers of 64 bits, and no fatal warning. -/
structure Finding.Fits (f : Finding) : Prop where
  line : f.line < Nat.pow 2 64
  column : f.column < Nat.pow 2 64
  fatal : f.fatal = true → f.severity = .error

def messageOf (f : Finding) : Message :=
  ⟨f.rule, levelOf f.severity, f.text, f.line, f.column, f.fatal⟩

theorem levelSmall (s : Severity) : levelOf s < Nat.pow 2 8 := by
  cases s with
  | error => decide
  | warning => decide

theorem findingMeant {f : Finding} (fits : Finding.Fits f) : (messageOf f).finding = .ok f := by
  obtain ⟨line, column, severity, text, rule, fatal⟩ := f
  have blocking := fits.fatal
  cases fatal <;> cases severity <;> first | rfl | simp at blocking

def Messages (fs : List Finding) (v : Value) : Prop :=
  ∃ vs, v = .array vs ∧ List.Forall₂ (fun f v => IsRecord (findingFields f) v) fs vs

def fileFields (f : FileReport) : List Field :=
  [⟨"filePath", (· = .text f.file), False⟩,
   ⟨"messages", Messages f.findings, f.findings = []⟩,
   ⟨"errorCount", (· = .ofNat f.errors), f.errors = 0⟩,
   ⟨"warningCount", (· = .ofNat f.warnings), f.warnings = 0⟩]

structure FileReport.Fits (f : FileReport) : Prop where
  errors : f.errors < Nat.pow 2 64
  warnings : f.warnings < Nat.pow 2 64
  findings : ∀ m ∈ f.findings, Finding.Fits m

def fileOf (f : FileReport) : File := ⟨f.file, f.findings.map messageOf, f.errors, f.warnings⟩

theorem fileStated (f : FileReport) : fileFields f = recordFields (fileOf f) := by
  have rows : Messages f.findings = MessageRows (f.findings.map messageOf) := by
    funext v
    simp only [Messages, MessageRows, List.forall₂_map_left_iff]
    rfl
  simp only [fileFields, recordFields, fileOf, rows, List.map_eq_nil_iff]

theorem fileFits {f : FileReport} (fits : FileReport.Fits f) : (fileOf f).Fits := by
  refine ⟨fits.errors, fits.warnings, ?_⟩
  intro m member
  obtain ⟨x, there, rfl⟩ := List.mem_map.mp member
  have inside := fits.findings x there
  exact ⟨levelSmall x.severity, inside.line, inside.column⟩

theorem fileMeant {f : FileReport} (fits : FileReport.Fits f) : (fileOf f).report = .ok f := by
  have findings : (f.findings.map messageOf).mapM Message.finding = .ok f.findings :=
    elementsRead fun m member => findingMeant (fits.findings m member)
  simp only [fileOf, File.report, findings]
  rfl

/-! ### Documents -/

/- The array alone starts and ends with its brackets, so what stands around it is white space of
any kind, not only of the four that JSON knows. -/
def Stated (files : List File) (text : String) : Prop :=
  ∃ before cs after vs, text.toList = before ++ (cs ++ after) ∧
    (∀ c ∈ before, Text.isBlank c = true) ∧ (∀ c ∈ after, Text.isBlank c = true) ∧
    Spells (.value (.array vs)) cs ∧
    List.Forall₂ (fun f v => IsRecord (recordFields f) v) files vs

/- The same of a report, with a level for each severity. -/
def Written (r : Report) (text : String) : Prop :=
  ∃ before cs after vs, text.toList = before ++ (cs ++ after) ∧
    (∀ c ∈ before, Text.isBlank c = true) ∧ (∀ c ∈ after, Text.isBlank c = true) ∧
    Spells (.value (.array vs)) cs ∧
    List.Forall₂ (fun f v => IsRecord (fileFields f) v) r vs

theorem writtenStated {r : Report} {text : String} (written : Written r text) :
    Stated (r.map fileOf) text := by
  obtain ⟨before, cs, after, vs, split, blankBefore, blankAfter, spells, rows⟩ := written
  refine ⟨before, cs, after, vs, split, blankBefore, blankAfter, spells, ?_⟩
  rw [List.forall₂_map_left_iff]
  exact rows.imp fun f v record => fileStated f ▸ record

theorem trimPadded {before after cs : List Char} {first last : Char} {inside : List Char}
    (blankBefore : ∀ c ∈ before, Text.isBlank c = true)
    (blankAfter : ∀ c ∈ after, Text.isBlank c = true) (shape : cs = first :: (inside ++ [last]))
    (firstShown : Text.isBlank first = false) (lastShown : Text.isBlank last = false) :
    Text.trim (String.ofList (before ++ (cs ++ after))) = String.ofList cs := by
  subst shape
  have start : (before ++ (first :: (inside ++ [last]) ++ after)).dropWhile Text.isBlank =
      first :: (inside ++ [last]) ++ after := by
    rw [List.dropWhile_append_of_pos blankBefore]
    simp [firstShown]
  have finish : ∀ ws : List Char, (∀ c ∈ ws, Text.isBlank c = true) →
      Text.dropEndWhile Text.isBlank (first :: (inside ++ [last]) ++ ws) =
        first :: (inside ++ [last]) := by
    intro ws blank
    have back : ∀ c ∈ ws.reverse, Text.isBlank c = true := fun c member =>
      blank c (List.mem_reverse.mp member)
    simp [Text.dropEndWhile, List.dropWhile_append_of_pos back, lastShown]
  simp only [Text.trim, Text.trimStart, Text.trimEnd, String.toList_ofList, start,
    finish after blankAfter]

theorem readFiles {s : String} {files : List File} (form : files? s = some files) :
    read s = files.mapM File.report := by
  unfold read
  rw [form]

theorem readMalformed {s : String} (form : files? s = none) : read s = .error .malformed := by
  unfold read
  rw [form]

theorem readAccepted {s : String} {r : Report} (accepted : read s = .ok r) :
    ∃ files, files? s = some files ∧ files.mapM File.report = .ok r := by
  cases form : files? s with
  | none =>
    rw [readMalformed form] at accepted
    cases accepted
  | some files => exact ⟨files, rfl, readFiles form ▸ accepted⟩

theorem statedRead {files : List File} {text : String} (fits : ∀ f ∈ files, f.Fits)
    (stated : Stated files text) : files? text = some files := by
  obtain ⟨before, cs, after, vs, split, blankBefore, blankAfter, spells, rows⟩ := stated
  obtain ⟨inside, shape⟩ := arrayBracketed spells
  have trimmed : Text.trim text = String.ofList cs := by
    rw [← String.ofList_toList (s := text), split]
    exact trimPadded blankBefore blankAfter shape rfl rfl
  have value : Value.read? (String.ofList cs) = some (.array vs) := Value.readValue spells
  have records : list? file? (.array vs) = some files :=
    rowsRead rows (fun f member v record => fileRead (fits f member) record)
  simp only [files?, trimmed, value, Option.bind_some, records]

theorem readWritten (r : Report) (text : String) (fits : ∀ f ∈ r, FileReport.Fits f)
    (written : Written r text) : read text = .ok r := by
  have found : files? text = some (r.map fileOf) := by
    refine statedRead ?_ (writtenStated written)
    intro f member
    obtain ⟨x, there, rfl⟩ := List.mem_map.mp member
    exact fileFits (fits x there)
  rw [readFiles found]
  exact elementsRead (fun f member => fileMeant (fits f member))

/- A report as an engine might give it: the fields of both records out of order and some left out,
a key of the engine's own, escapes that no printer needs and a no-break space in front. -/
def sampleFinding : Finding := ⟨0, 0, .error, "é/", none, true⟩

def sampleFile : FileReport := ⟨"a.js", 1, 0, [sampleFinding]⟩

def sampleText : String :=
  "\u00a0[\x7b\"errorCount\":1,\"usedRules\":[ ],\"messages\":[\x7b\"message\":\"\\u00E9\\/\"," ++
    "\"fatal\":true,\"severity\":2\x7d],\"filePath\":\"a.js\"\x7d]\n"

theorem memberBare {k : String} {v : Json.Value} {cs : List Char} (h : Spells (.value v) cs) :
    Spells (.member (some k) v) (quoted (k.toList.flatMap Json.escapeChar) ++ ':' :: cs) :=
  .member spacesNone (.text (Json.contentPrinted k.toList)) spacesNone (spellsBare h)

def sampleMessage : Json.Value :=
  .ofFields [("message", .text "é/"), ("fatal", .boolean true), ("severity", .ofNat 2)]

theorem sampleMessageRecord : IsRecord (findingFields sampleFinding) sampleMessage := by
  refine ⟨_, rfl, ?_⟩
  constructor <;> simp [findingFields, sampleFinding, levelOf]

theorem sampleMessageSpelt :
    Spells (.value sampleMessage)
      ('{' :: (quoted "message".toList ++ ':' :: quoted "\\u00E9\\/".toList ++
        ',' :: (quoted "fatal".toList ++ ':' :: "true".toList ++
        ',' :: (quoted "severity".toList ++ [':', '2'])) ++ ['}'])) := by
  have acute : Spelling 'é' "\\u00E9".toList :=
    .unit (.digits (a := 0) (b := 0) (c := 14) (d := 9) (Json.digitPrinted (by omega))
      (Json.digitPrinted (by omega)) ⟨by omega, .inr rfl⟩ (Json.digitPrinted (by omega)))
  have slash : Spelling '/' ['\\', '/'] := .short (by simp [Json.Grammar.shortEscapes])
  have text : Content "é/".toList "\\u00E9\\/".toList := .cons acute (.cons slash .nil)
  have level : Spells (.value (.ofNat 2)) ['2'] := .number (Json.decimalPrinted 2)
  exact .object (.moreMembers (memberBare (.text text)) (.moreMembers (memberBare .yes)
    (.lastMember (memberBare level))))

def sampleRecord : Json.Value :=
  .ofFields [("errorCount", .ofNat 1), ("usedRules", .array []),
    ("messages", .array [sampleMessage]), ("filePath", .text "a.js")]

theorem sampleFileRecord : IsRecord (fileFields sampleFile) sampleRecord := by
  refine ⟨_, rfl, ?_⟩
  constructor <;> simp [fileFields, sampleFile, Messages, sampleMessageRecord]

theorem sampleSpelt : Written [sampleFile] sampleText := by
  have count : Spells (.value (.ofNat 1)) ['1'] := .number (Json.decimalPrinted 1)
  have name := Spells.text (s := "a.js") (Json.contentPrinted "a.js".toList)
  have file : Spells (.value sampleRecord) _ := .object
    (.moreMembers (memberBare count) (.moreMembers (memberBare (.emptyArray (spacesOne (.inl rfl))))
    (.moreMembers (memberBare (.array (.lastItem (spellsBare sampleMessageSpelt))))
    (.lastMember (memberBare name)))))
  refine ⟨['\u00a0'], _, ['\n'], _, ?_, List.forall_mem_singleton.mpr rfl,
    List.forall_mem_singleton.mpr rfl, .array (.lastItem (spellsBare file)),
    .cons sampleFileRecord .nil⟩
  decide +kernel

theorem sampleFits : ∀ f ∈ [sampleFile], FileReport.Fits f := by
  have finding : Finding.Fits sampleFinding := ⟨by decide, by decide, fun _ => rfl⟩
  have file : FileReport.Fits sampleFile :=
    ⟨by decide, by decide, List.forall_mem_singleton.mpr finding⟩
  exact List.forall_mem_singleton.mpr file

theorem readSample :
    (∀ f ∈ [sampleFile], FileReport.Fits f) ∧ Written [sampleFile] sampleText ∧
      read sampleText = .ok [sampleFile] :=
  ⟨sampleFits, sampleSpelt, readWritten [sampleFile] sampleText sampleFits sampleSpelt⟩

end LintGate.Report.Native
