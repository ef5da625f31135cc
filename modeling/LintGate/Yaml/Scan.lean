import LintGate.Yaml.Block
import LintGate.Yaml.Quoted
import LintGate.Yaml.Token
/-! From a stream to its words. A key need not be marked: where a word might turn out to be one,
its place is remembered, and the mark is put there when a colon follows on the same line. -/
namespace LintGate.Yaml

/- A place where a key may begin. If it is `required`, nothing but a key can stand there. -/
structure KeyPlace where
  position : Nat
  required : Bool
  mark : Mark
  deriving DecidableEq, Repr

/- A key ends on the line it begins on and within 1024 octets. -/
def KeyPlace.stale (k : KeyPlace) (m : Mark) : Bool :=
  k.mark.line < m.line || k.mark.offset + 1024 < m.offset

/- `indents` holds the columns of the open block collections and `keys` one place for each open
flow collection and one for the block around them, both innermost first. -/
structure Scan where
  tokens : List Token
  mark : Mark
  rest : List Char
  flow : Nat
  indents : List Nat
  keyAllowed : Bool
  keys : List (Option KeyPlace)
  deriving DecidableEq, Repr

namespace Scan

def start (cs : List Char) : Scan := ⟨[], .zero, cs, 0, [], true, [none]⟩

def inFlow (s : Scan) : Bool := s.flow > 0

def emit (s : Scan) (t : Token) : Scan := { s with tokens := s.tokens ++ [t] }

def insert (s : Scan) (position : Nat) (t : Token) : Scan :=
  { s with tokens := s.tokens.take position ++ t :: s.tokens.drop position }

def skip (s : Scan) (n : Nat) : Scan :=
  { s with mark := s.mark.skip (s.rest.take n), rest := s.rest.drop n }

def goTo (s : Scan) (rest : List Char) : Scan := s.skip (s.rest.length - rest.length)

def allowKey (s : Scan) (allowed : Bool) : Scan := { s with keyAllowed := allowed }

/-! ### Indentation -/

def roll (s : Scan) (column position : Nat) (t : Token) : Scan :=
  if !s.inFlow && s.indents.head?.all (· < column) then
    { s with indents := column :: s.indents }.insert position t
  else s

/- Closes the block collections whose column is at least the given one. -/
def unroll (s : Scan) (least : Nat) : Scan :=
  if s.inFlow then s
  else
    { s with
        tokens := s.tokens ++ (s.indents.takeWhile (least ≤ ·)).map fun _ => Token.blockEnd
        indents := s.indents.dropWhile (least ≤ ·) }

/-! ### Keys -/

def key? (s : Scan) : Option KeyPlace := s.keys.head?.join

def setKey (s : Scan) (k : Option KeyPlace) : Scan := { s with keys := k :: s.keys.drop 1 }

def dropKey (s : Scan) : Option Scan :=
  if s.key?.any KeyPlace.required then none else some (s.setKey none)

def saveKey (s : Scan) : Option Scan :=
  if s.keyAllowed then do
    let required := !s.inFlow && s.indents.head? = some s.mark.column
    let s ← s.dropKey
    some (s.setKey (some ⟨s.tokens.length, required, s.mark⟩))
  else some s

def dropStale (s : Scan) : Option Scan := do
  let keys ← s.keys.mapM fun place =>
    match place with
    | some k => if k.stale s.mark then (if k.required then none else some none) else some place
    | none => some none
  some { s with keys := keys }

/-! ### Between words -/

/- A byte order mark may begin any line, and takes up a column of it. -/
def spaceFrom (flow : Bool) (keyAllowed comment : Bool) (m : Mark) :
    List Char → Bool × Mark × List Char
  | [] => (keyAllowed, m, [])
  | c :: cs =>
      if isBreak c then spaceFrom flow (keyAllowed || !flow) false m.newLine cs
      else if comment then spaceFrom flow keyAllowed true (m.next c) cs
      else if c == ' ' || (c == '\t' && (flow || !keyAllowed)) then
        spaceFrom flow keyAllowed false (m.next c) cs
      else if c == '#' then spaceFrom flow keyAllowed true (m.next c) cs
      else if c == byteOrderMark && m.column == 0 then spaceFrom flow keyAllowed false (m.next c) cs
      else (keyAllowed, m, c :: cs)

/- Passes white space, breaks and comments. A new line of a block may begin with a key. -/
def toWord (s : Scan) : Scan :=
  let (keyAllowed, mark, rest) := spaceFrom s.inFlow s.keyAllowed false s.mark s.rest
  { s with keyAllowed, mark, rest }

/-! ### Words -/

def finish (s : Scan) : Option (List Token) := ((s.unroll 0).dropKey).map Scan.tokens

def directive (s : Scan) : Option Scan := do
  let s := (← (s.unroll 0).dropKey).allowKey false
  let (t, rest) ← Directive.read? (s.rest.drop 1)
  some ((s.emit t).goTo rest)

def documentMark (s : Scan) (t : Token) : Option Scan := do
  let s ← (s.unroll 0).dropKey
  some (((s.allowKey false).emit t).skip 3)

def openFlow (s : Scan) (t : Token) : Option Scan := do
  let s ← s.saveKey
  some ({ s with flow := s.flow + 1, keys := none :: s.keys, keyAllowed := true }.emit t |>.skip 1)

def closeFlow (s : Scan) (t : Token) : Option Scan := do
  let s ← s.dropKey
  let s := if s.inFlow then { s with flow := s.flow - 1, keys := s.keys.drop 1 } else s
  some (((s.allowKey false).emit t).skip 1)

def flowEntry (s : Scan) : Option Scan := do
  let s ← s.dropKey
  some (((s.allowKey true).emit .flowEntry).skip 1)

/- An entry, key or value mark in a block opens the collection it belongs to. -/
def openBlock (s : Scan) (t : Token) : Option Scan :=
  if s.inFlow then some s
  else if s.keyAllowed then some (s.roll s.mark.column s.tokens.length t)
  else none

def blockEntry (s : Scan) : Option Scan := do
  let s ← s.openBlock .blockSequence
  let s ← s.dropKey
  some (((s.allowKey true).emit .blockEntry).skip 1)

def keyMark (s : Scan) : Option Scan := do
  let s ← s.openBlock .blockMapping
  let s ← s.dropKey
  some (((s.allowKey (!s.inFlow)).emit .key).skip 1)

def valueMark (s : Scan) : Option Scan := do
  let s ← match s.key? with
    | some k =>
        some (((s.insert k.position .key).roll k.mark.column k.position .blockMapping).setKey none
          |>.allowKey false)
    | none => do
        let s ← s.openBlock .blockMapping
        some (s.allowKey (!s.inFlow))
  some ((s.emit .value).skip 1)

def named (s : Scan) (word : String → Token) : Option Scan := do
  let s := (← s.saveKey).allowKey false
  let (name, rest) ← anchorName? (s.rest.drop 1)
  some ((s.emit (word name)).goTo rest)

def tag (s : Scan) : Option Scan := do
  let s := (← s.saveKey).allowKey false
  let (spelling, rest) ← Tag.spelling? s.inFlow s.rest
  some ((s.emit (.tag spelling)).goTo rest)

def take (s : Scan) (style : Style) (r : ScalarRead) (keyAllowed : Bool) : Scan :=
  { s with mark := r.mark, rest := r.rest, keyAllowed }.emit
    (.scalar style (String.ofList r.text))

def blockScalar (s : Scan) (literal : Bool) : Option Scan := do
  let s ← s.dropKey
  let r ← Block.read literal s.indents.head? (s.skip 1).mark (s.skip 1).rest
  some (s.take (if literal then .literal else .folded) r true)

def quotedScalar (s : Scan) (single : Bool) : Option Scan := do
  let s ← s.saveKey
  let r ← Quoted.read single (s.skip 1).mark (s.skip 1).rest
  some (s.take .quoted r false)

def plainScalar (s : Scan) : Option Scan := do
  let s ← s.saveKey
  let least := match s.indents.head? with
    | some n => n + 1
    | none => 0
  let r ← Plain.read s.inFlow least s.mark s.rest
  some (s.take .plain r r.newLine)

/- No plain scalar begins with one of these, except that `-`, `?` and `:` may begin one where
they mark nothing. -/
def isIndicator (c : Char) : Bool := "-?:,[]\x7b\x7d#&*!|>\x27\x22%@\x60".toList.contains c

def startsPlain (flow : Bool) (c : Char) (rest : List Char) : Bool :=
  !(isSpace c || isBreak c || isIndicator c) ||
    (c == '-' && !(rest.head?.any isSpace)) ||
    (!flow && (c == '?' || c == ':') && !wordEnds rest)

def word (s : Scan) (c : Char) (cs : List Char) : Option Scan :=
  let atStart := s.mark.column == 0
  if atStart && c == '%' then s.directive
  else if atStart && c == '-' && atDocumentMark (c :: cs) then s.documentMark .documentStart
  else if atStart && c == '.' && atDocumentMark (c :: cs) then s.documentMark .documentEnd
  else if c == '[' then s.openFlow .flowSequence
  else if c == '{' then s.openFlow .flowMapping
  else if c == ']' then s.closeFlow .flowSequenceEnd
  else if c == '}' then s.closeFlow .flowMappingEnd
  else if c == ',' then s.flowEntry
  else if c == '-' && wordEnds cs then s.blockEntry
  else if c == '?' && (s.inFlow || wordEnds cs) then s.keyMark
  else if c == ':' && (s.inFlow || wordEnds cs) then s.valueMark
  else if c == '*' then s.named .reference
  else if c == '&' then s.named .anchor
  else if c == '!' then s.tag
  else if c == '|' && !s.inFlow then s.blockScalar true
  else if c == '>' && !s.inFlow then s.blockScalar false
  else if c == '\x27' then s.quotedScalar true
  else if c == '\x22' then s.quotedScalar false
  else if startsPlain s.inFlow c cs then s.plainScalar
  else none

/- Every word takes a character at least, so the length of the stream is enough fuel. -/
def run : Nat → Scan → Option (List Token)
  | 0, _ => none
  | fuel + 1, s => do
      let s ← s.toWord.dropStale
      match s.rest with
      | [] => s.finish
      | c :: cs => run fuel (← (s.unroll (s.mark.column + 1)).word c cs)

end Scan

def tokens? (text : String) : Option (List Token) := do
  let cs ← stream? text.toList
  Scan.run (cs.length + 1) (.start cs)

end LintGate.Yaml
