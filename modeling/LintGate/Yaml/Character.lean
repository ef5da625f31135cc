/-! The characters of a YAML stream, and where one stands in it. Every break but the line and
paragraph separators is one and the same line feed from here on. -/
namespace LintGate.Yaml

def allowed (c : Char) : Bool :=
  let n := c.toNat
  n == 0x09 || n == 0x0A || n == 0x0D || (0x20 ≤ n && n ≤ 0x7E) || n == 0x85 ||
  (0xA0 ≤ n && n ≤ 0xD7FF) || (0xE000 ≤ n && n ≤ 0xFFFD) || 0x10000 ≤ n

def foldBreaks : List Char → List Char
  | '\r' :: '\n' :: cs => '\n' :: foldBreaks cs
  | c :: cs => (if c = '\r' ∨ c = '\u0085' then '\n' else c) :: foldBreaks cs
  | [] => []

def byteOrderMark : Char := '\uFEFF'

/- A byte order mark in front is a character of the first line like any other. -/
def stream? (cs : List Char) : Option (List Char) :=
  if cs.all allowed then some (foldBreaks cs) else none

def isSpace (c : Char) : Bool := c == ' ' || c == '\t'

def isBreak (c : Char) : Bool := c == '\n' || c == '\u2028' || c == '\u2029'

def wordEnds : List Char → Bool
  | [] => true
  | c :: _ => isSpace c || isBreak c

/- The letters of names: anchors, handles and directives are made of them. -/
def isNameChar (c : Char) : Bool := c.isAlphanum || c == '_' || c == '-'

/- `---` or `...` as a word of its own; it counts at the beginning of a line only. -/
def atDocumentMark : List Char → Bool
  | '-' :: '-' :: '-' :: cs => wordEnds cs
  | '.' :: '.' :: '.' :: cs => wordEnds cs
  | _ => false

/- The column counts characters. The offset counts octets and is exact within a line only. -/
structure Mark where
  offset : Nat
  line : Nat
  column : Nat
  deriving DecidableEq, Repr

namespace Mark

def zero : Mark := ⟨0, 0, 0⟩

def next (m : Mark) (c : Char) : Mark := ⟨m.offset + c.utf8Size, m.line, m.column + 1⟩

def newLine (m : Mark) : Mark := ⟨m.offset + 1, m.line + 1, 0⟩

def past (m : Mark) (c : Char) : Mark := if isBreak c then m.newLine else m.next c

def skip (m : Mark) (cs : List Char) : Mark := cs.foldl next m

end Mark
end LintGate.Yaml
