import LintGate.Toml.Item
import LintGate.Toml.Text
import LintGate.Toml.Word
/-! The statements of a TOML text: entries and headers, one a line. -/
namespace LintGate.Toml

inductive Statement
  | entry (e : Entry)
  | table (path : List String) (key : String)
  | tables (path : List String) (key : String)
  deriving Repr

/-! ### Keys -/

def isBareKeyChar (c : Char) : Bool := c.isAlphanum || c == '_' || c == '-'

def keyPart? (cs : List Char) : Option (String × List Char) :=
  match shortString? cs with
  | some (text, rest) => some (String.ofList text, rest)
  | none =>
      let bare := cs.takeWhile isBareKeyChar
      if bare.isEmpty then none else some (String.ofList bare, cs.dropWhile isBareKeyChar)

/- A key as its parts before the last one and that one. -/
def keyFrom : Nat → List Char → Option ((List String × String) × List Char)
  | 0, _ => none
  | fuel + 1, cs => do
      let (part, cs) ← keyPart? cs
      match dropSpace cs with
      | '.' :: cs =>
          let ((path, key), cs) ← keyFrom fuel (dropSpace cs)
          some ((part :: path, key), cs)
      | cs => some (([], part), cs)

def key? (cs : List Char) : Option ((List String × String) × List Char) :=
  keyFrom (cs.length + 1) cs

/-! ### Values -/

def wordItem? (cs : List Char) : Option Item :=
  if cs = "true".toList then some (.boolean true)
  else if cs = "false".toList then some (.boolean false)
  else if Word.isInteger cs || Word.isFloat cs then some (.number (String.ofList cs))
  else if Word.isMoment cs then some (.moment (String.ofList cs))
  else none

def word? (cs : List Char) : Option (Item × List Char) :=
  let (w, rest) := Word.split cs
  (wordItem? w).map fun v => (v, rest)

/- How many arrays and inline tables may be open at once. -/
def maxDepth : Nat := 80

/- What follows a comma or, if there is none, the closing bracket that has to come then. -/
def continued? (close : Char) : List Char → Option (Bool × List Char)
  | c :: cs => if c == ',' then some (true, cs) else if c == close then some (false, cs) else none
  | [] => none

/- What follows the gap between two words of an entry, which in an inline table may go over
lines. A key is one word, with the dots in it. -/
def dropBetween (inTable : Bool) (cs : List Char) : Option (List Char) :=
  if inTable then dropGap false cs else some (dropSpace cs)

/- Two steps at most pass before a character is used up. -/
mutual
def valueFrom (depth : Nat) : Nat → List Char → Option (Item × List Char)
  | 0, _ => none
  | fuel + 1, '[' :: cs =>
      if depth = 0 then none
      else (itemsFrom (depth - 1) fuel cs).map fun (items, rest) => (.array items, rest)
  | fuel + 1, '{' :: cs =>
      if depth = 0 then none
      else do
        let (entries, rest) ← entriesFrom (depth - 1) fuel cs
        some (← Item.inlineTable? entries, rest)
  | _ + 1, cs =>
      match string? cs with
      | some (text, rest) => some (.text (String.ofList text), rest)
      | none => word? cs

def itemsFrom (depth : Nat) : Nat → List Char → Option (List Item × List Char)
  | 0, _ => none
  | fuel + 1, cs => do
      match ← dropGap false cs with
      | ']' :: rest => some ([], rest)
      | cs =>
          let (item, cs) ← valueFrom depth fuel cs
          match ← continued? ']' (← dropGap false cs) with
          | (true, cs) =>
              let (items, rest) ← itemsFrom depth fuel cs
              some (item :: items, rest)
          | (false, rest) => some ([item], rest)

def entriesFrom (depth : Nat) : Nat → List Char → Option (List Entry × List Char)
  | 0, _ => none
  | fuel + 1, cs => do
      match ← dropGap false cs with
      | '}' :: rest => some ([], rest)
      | cs =>
          let (e, cs) ← entryFrom true depth fuel cs
          match ← continued? '}' (← dropGap false cs) with
          | (true, cs) =>
              let (entries, rest) ← entriesFrom depth fuel cs
              some (e :: entries, rest)
          | (false, rest) => some ([e], rest)

def entryFrom (inTable : Bool) (depth : Nat) : Nat → List Char → Option (Entry × List Char)
  | 0, _ => none
  | fuel + 1, cs => do
      let ((path, key), cs) ← key? cs
      match ← dropBetween inTable cs with
      | '=' :: cs =>
          let (v, cs) ← valueFrom depth fuel (← dropBetween inTable cs)
          some (⟨path, key, v⟩, cs)
      | _ => none
end

def lineEntry (cs : List Char) : Option (Entry × List Char) :=
  entryFrom false maxDepth (3 * cs.length + 3) cs

/-! ### Lines -/

def header? (cs : List Char) : Option ((List String × String) × List Char) := do
  match ← key? (dropSpace cs) with
  | (key, ']' :: cs) => some (key, cs)
  | _ => none

def statement? : List Char → Option (Statement × List Char)
  | '[' :: '[' :: cs => do
      match ← header? cs with
      | ((path, key), ']' :: cs) => some (.tables path key, cs)
      | _ => none
  | '[' :: cs => (header? cs).map fun ((path, key), cs) => (.table path key, cs)
  | cs => (lineEntry cs).map fun (e, cs) => (.entry e, cs)

def statementsFrom : Nat → List Char → Option (List Statement)
  | 0, _ => none
  | fuel + 1, cs => do
      match ← dropGap false cs with
      | [] => some []
      | cs =>
          let (s, cs) ← statement? cs
          let rest ← statementsFrom fuel (← dropLine false cs)
          some (s :: rest)

/- The statements of a text, in front of which a byte order mark may stand. -/
def statements? (text : String) : Option (List Statement) :=
  let cs := text.toList
  let cs := if cs.head? = some '\uFEFF' then cs.drop 1 else cs
  statementsFrom (cs.length + 1) cs

end LintGate.Toml
