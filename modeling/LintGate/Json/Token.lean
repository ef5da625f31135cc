import LintGate.Text.Hex
/-! The words of a JSON text: punctuation, literals, numbers and strings, read one character
at a time. A number keeps its spelling, a string the pieces that its escapes name. -/
namespace LintGate.Json

/- An escape may name half of a surrogate pair, which is no character. -/
inductive Piece
  | char (c : Char)
  | surrogate (unit : Nat)
  deriving DecidableEq, Repr

namespace Piece

def ofUnit (n : Nat) : Piece :=
  if 0xD800 ≤ n ∧ n < 0xE000 then surrogate n else char (Char.ofNat n)

def pair (high low : Nat) : Char :=
  Char.ofNat (0x10000 + (high - 0xD800) * 0x400 + (low - 0xDC00))

/- The text that the pieces spell: each high half has its low half right after it. -/
def join? : List Piece → Option (List Char)
  | [] => some []
  | char c :: ps => (join? ps).map (c :: ·)
  | surrogate h :: surrogate l :: ps =>
      if h < 0xDC00 ∧ 0xDC00 ≤ l then (join? ps).map (pair h l :: ·) else none
  | surrogate _ :: _ => none

theorem joinChars (cs : List Char) : join? (cs.map char) = some cs := by
  induction cs with
  | nil => rfl
  | cons c cs ih => simp [join?, ih]

end Piece

inductive Token
  | openArray | closeArray | openObject | closeObject | comma | colon
  | null
  | boolean (b : Bool)
  | number (spelling : List Char)
  | string (pieces : List Piece)
  deriving DecidableEq, Repr

/-! ### The grammar of numbers -/
namespace Number

def exponent : List Char → Bool
  | [] => true
  | e :: cs =>
      let digits := match cs with
        | '+' :: ds => ds
        | '-' :: ds => ds
        | ds => ds
      (e == 'e' || e == 'E') && !digits.isEmpty && digits.all Char.isDigit

def fraction : List Char → Bool
  | '.' :: cs => !(cs.takeWhile Char.isDigit).isEmpty && exponent (cs.dropWhile Char.isDigit)
  | cs => exponent cs

/- No zero stands before another digit. -/
def unsigned : List Char → Bool
  | [] => false
  | '0' :: cs => fraction cs
  | c :: cs => c.isDigit && fraction (cs.dropWhile Char.isDigit)

def valid : List Char → Bool
  | '-' :: cs => unsigned cs
  | cs => unsigned cs

/- The characters that a number may hold anywhere. -/
def mark (c : Char) : Bool :=
  c.isDigit || c == '-' || c == '+' || c == '.' || c == 'e' || c == 'E'

end Number

namespace Token

/- Where the reader stands. What it has seen of a word, a number or a string comes last first. -/
inductive Scan
  | between
  | word (seen : List Char)
  | number (seen : List Char)
  | string (seen : List Piece)
  | escape (seen : List Piece)
  | hex (seen : List Piece) (owed : Nat) (value : Nat)
  deriving DecidableEq, Repr

def isSpace (c : Char) : Bool := c == ' ' || c == '\t' || c == '\n' || c == '\r'

def punctuation? : Char → Option Token
  | '[' => some openArray
  | ']' => some closeArray
  | '{' => some openObject
  | '}' => some closeObject
  | ',' => some comma
  | ':' => some colon
  | _ => none

def literal? (cs : List Char) : Option Token :=
  if cs = "null".toList then some null
  else if cs = "true".toList then some (boolean true)
  else if cs = "false".toList then some (boolean false)
  else none

def number? (cs : List Char) : Option Token :=
  if Number.valid cs then some (number cs) else none

def start (c : Char) : Option (List Token × Scan) :=
  if isSpace c then some ([], .between)
  else if c == '\x22' then some ([], .string [])
  else if c.isLower then some ([], .word [c])
  else if c == '-' || c.isDigit then some ([], .number [c])
  else (punctuation? c).map fun t => ([t], .between)

def simpleEscape? : Char → Option Char
  | '\x22' => some '\x22'
  | '\\' => some '\\'
  | '/' => some '/'
  | 'b' => some '\x08'
  | 'f' => some '\x0c'
  | 'n' => some '\n'
  | 'r' => some '\r'
  | 't' => some '\t'
  | _ => none

def advance : Scan → Char → Option (List Token × Scan)
  | .between, c => start c
  | .word seen, c =>
      if c.isLower then some ([], .word (c :: seen))
      else do
        let t ← literal? seen.reverse
        let (ts, s) ← start c
        some (t :: ts, s)
  | .number seen, c =>
      if Number.mark c then some ([], .number (c :: seen))
      else do
        let t ← number? seen.reverse
        let (ts, s) ← start c
        some (t :: ts, s)
  | .string seen, c =>
      if c == '\x22' then some ([string seen.reverse], .between)
      else if c == '\\' then some ([], .escape seen)
      else if c.toNat < 0x20 then none
      else some ([], .string (.char c :: seen))
  | .escape seen, c =>
      if c == 'u' then some ([], .hex seen 4 0)
      else (simpleEscape? c).map fun e => ([], .string (.char e :: seen))
  | .hex seen owed value, c =>
      (Text.hexDigit? c).map fun d =>
        let value := value * 16 + d
        if owed ≤ 1 then ([], .string (Piece.ofUnit value :: seen))
        else ([], .hex seen (owed - 1) value)

def finish : Scan → Option (List Token)
  | .between => some []
  | .word seen => (literal? seen.reverse).map ([·])
  | .number seen => (number? seen.reverse).map ([·])
  | .string _ | .escape _ | .hex _ _ _ => none

def scanFrom : Scan → List Char → Option (List Token)
  | s, [] => finish s
  | s, c :: cs => do
      let (ts, s) ← advance s c
      let rest ← scanFrom s cs
      some (ts ++ rest)

/- All words of a text, if it consists of words and the four JSON spaces between them. -/
def scan? (cs : List Char) : Option (List Token) := scanFrom .between cs

end Token
end LintGate.Json
