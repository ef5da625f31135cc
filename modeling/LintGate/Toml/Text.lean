import LintGate.Text.Hex
/-! The characters of a TOML text, the gaps between its words, and its four kinds of strings. -/
namespace LintGate.Toml

/- Control characters, tab excepted, stand neither in comments nor in strings. -/
def isText (c : Char) : Bool := c == '\t' || (0x20 ≤ c.toNat && c.toNat ≠ 0x7F)

def isSpace (c : Char) : Bool := c == ' ' || c == '\t'

def dropSpace (cs : List Char) : List Char := cs.dropWhile isSpace

/- What follows a line end, if one comes first. A carriage return alone ends no line. -/
def newLine? : List Char → Option (List Char)
  | '\n' :: cs => some cs
  | '\r' :: '\n' :: cs => some cs
  | _ => none

def dropGap (comment : Bool) : List Char → Option (List Char)
  | [] => some []
  | '\n' :: cs => dropGap false cs
  | '\r' :: '\n' :: cs => dropGap false cs
  | c :: cs =>
      if comment then (if isText c then dropGap true cs else none)
      else if isSpace c then dropGap false cs
      else if c == '#' then dropGap true cs
      else some (c :: cs)

/- The next line, if nothing but white space and a comment is left of this one. -/
def dropLine (comment : Bool) : List Char → Option (List Char)
  | [] => some []
  | '\n' :: cs => some cs
  | '\r' :: '\n' :: cs => some cs
  | c :: cs =>
      if comment then (if isText c then dropLine true cs else none)
      else if isSpace c then dropLine false cs
      else if c == '#' then dropLine true cs
      else none

/-! ### Strings -/

/- A long string is written between three quotes and may go over lines. -/
structure Delimiter where
  quote : Char
  long : Bool
  deriving DecidableEq, Repr

def Delimiter.escapes (d : Delimiter) : Bool := d.quote == '\x22'

/- The end of a string, with what it still adds: up to two quotes right before three that end
a long string belong to its text. -/
def Delimiter.close? (d : Delimiter) (cs : List Char) : Option (List Char × List Char) :=
  let quotes := (cs.takeWhile (· == d.quote)).length
  if d.long then
    if quotes < 3 then none
    else some (List.replicate (min quotes 5 - 3) d.quote, cs.drop (min quotes 5))
  else if quotes = 0 then none
  else some ([], cs.drop 1)

/- How the next character counts. Behind an escaped line end all white space is skipped. -/
inductive Mode
  | text
  | escape
  | hex (owed : Nat) (value : Nat)
  | lineEnd
  | skipped
  deriving DecidableEq, Repr

def simpleEscape? : Char → Option Char
  | 'b' => some '\x08'
  | 't' => some '\t'
  | 'n' => some '\n'
  | 'f' => some '\x0c'
  | 'r' => some '\r'
  | 'e' => some '\x1b'
  | '\x22' => some '\x22'
  | '\\' => some '\\'
  | _ => none

def hexEscape? : Char → Option Nat
  | 'x' => some 2
  | 'u' => some 4
  | 'U' => some 8
  | _ => none

/- A line end keeps its spelling. -/
def stringFrom (d : Delimiter) : Mode → List Char → Option (List Char × List Char)
  | _, [] => none
  | .text, c :: cs =>
      match d.close? (c :: cs) with
      | some r => some r
      | none =>
          if d.escapes && c == '\\' then stringFrom d .escape cs
          else if isText c || (d.long && (c == '\n' || (c == '\r' && cs.head? = some '\n'))) then
            (stringFrom d .text cs).map fun (text, rest) => (c :: text, rest)
          else none
  | .escape, c :: cs =>
      match simpleEscape? c, hexEscape? c with
      | some e, _ => (stringFrom d .text cs).map fun (text, rest) => (e :: text, rest)
      | none, some digits => stringFrom d (.hex digits 0) cs
      | none, none =>
          if !d.long then none
          else if c == '\n' then stringFrom d .skipped cs
          else if isSpace c || (c == '\r' && cs.head? = some '\n') then stringFrom d .lineEnd cs
          else none
  | .hex owed value, c :: cs => do
      let value := value * 16 + (← Text.hexDigit? c)
      if owed ≤ 1 then
        let e ← Text.charOf? value
        (stringFrom d .text cs).map fun (text, rest) => (e :: text, rest)
      else stringFrom d (.hex (owed - 1) value) cs
  | .lineEnd, c :: cs =>
      if c == '\n' then stringFrom d .skipped cs
      else if isSpace c || (c == '\r' && cs.head? = some '\n') then stringFrom d .lineEnd cs
      else none
  | .skipped, c :: cs =>
      match d.close? (c :: cs) with
      | some r => some r
      | none =>
          if isSpace c || c == '\n' || (c == '\r' && cs.head? = some '\n') then
            stringFrom d .skipped cs
          else if c == '\\' then stringFrom d .escape cs
          else if isText c then
            (stringFrom d .text cs).map fun (text, rest) => (c :: text, rest)
          else none

def shortString? : List Char → Option (List Char × List Char)
  | '\x22' :: cs => stringFrom ⟨'\x22', false⟩ .text cs
  | '\x27' :: cs => stringFrom ⟨'\x27', false⟩ .text cs
  | _ => none

/- A string of any kind. A line end right behind three quotes is dropped. -/
def string? : List Char → Option (List Char × List Char)
  | '\x22' :: '\x22' :: '\x22' :: cs =>
      stringFrom ⟨'\x22', true⟩ .text ((newLine? cs).getD cs)
  | '\x27' :: '\x27' :: '\x27' :: cs =>
      stringFrom ⟨'\x27', true⟩ .text ((newLine? cs).getD cs)
  | cs => shortString? cs

end LintGate.Toml
