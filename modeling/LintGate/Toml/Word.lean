import LintGate.Text.Decimal
/-! Words without quotes: truth values, numbers, dates and times. -/
namespace LintGate.Toml.Word

/-! ### Numbers -/

/- Digits, between which single underscores may stand. -/
def isDigits (digit : Char → Bool) : List Char → Bool
  | [] => false
  | [c] => digit c
  | c :: '_' :: cs => digit c && isDigits digit cs
  | c :: cs => digit c && isDigits digit cs

def unsigned : List Char → List Char
  | '+' :: cs => cs
  | '-' :: cs => cs
  | cs => cs

def isHexDigit (c : Char) : Bool :=
  c.isDigit || ('a' ≤ c && c ≤ 'f') || ('A' ≤ c && c ≤ 'F')

/- No zero stands before another digit. -/
def isWhole (cs : List Char) : Bool :=
  isDigits Char.isDigit cs && (cs.length = 1 || cs.head? ≠ some '0')

def isInteger : List Char → Bool
  | '0' :: 'x' :: cs => isDigits isHexDigit cs
  | '0' :: 'o' :: cs => isDigits (fun c => '0' ≤ c && c ≤ '7') cs
  | '0' :: 'b' :: cs => isDigits (fun c => c == '0' || c == '1') cs
  | cs => isWhole (unsigned cs)

def inNumber (c : Char) : Bool := c.isDigit || c == '_'

def isExponent : List Char → Bool
  | e :: cs => (e == 'e' || e == 'E') && isDigits Char.isDigit (unsigned cs)
  | [] => false

def isFloat (cs : List Char) : Bool :=
  let cs := unsigned cs
  cs = "inf".toList || cs = "nan".toList ||
    (isWhole (cs.takeWhile inNumber) &&
      match cs.dropWhile inNumber with
      | '.' :: cs =>
          let rest := cs.dropWhile inNumber
          isDigits Char.isDigit (cs.takeWhile inNumber) && (rest.isEmpty || isExponent rest)
      | cs => isExponent cs)

/-! ### Dates and times -/

/- A number of exactly so many digits within the bounds. -/
def field? (digits low high : Nat) (cs : List Char) : Option (Nat × List Char) :=
  let ds := cs.take digits
  let n := Text.digitsValue ds
  if ds.length = digits ∧ ds.all Char.isDigit ∧ low ≤ n ∧ n ≤ high then some (n, cs.drop digits)
  else none

def expect? (c : Char) (cs : List Char) : Option (List Char) :=
  if cs.head? = some c then some (cs.drop 1) else none

def isLeap (year : Nat) : Bool := year % 4 = 0 && (year % 100 ≠ 0 || year % 400 = 0)

def daysOf (year month : Nat) : Nat :=
  if month = 2 then (if isLeap year then 29 else 28)
  else if [4, 6, 9, 11].contains month then 30
  else 31

def date? (cs : List Char) : Option (List Char) := do
  let (year, cs) ← field? 4 0 9999 cs
  let (month, cs) ← field? 2 1 12 (← expect? '-' cs)
  let (_, cs) ← field? 2 1 (daysOf year month) (← expect? '-' cs)
  return cs

/- The seconds may be left out, and a leap second counts as the sixty-first. -/
def time? (cs : List Char) : Option (List Char) := do
  let (_, cs) ← field? 2 0 23 cs
  let (_, cs) ← field? 2 0 59 (← expect? ':' cs)
  match cs with
  | ':' :: cs =>
      let (_, cs) ← field? 2 0 60 cs
      match cs with
      | '.' :: cs =>
          if cs.head?.any Char.isDigit then return cs.dropWhile Char.isDigit else none
      | cs => return cs
  | cs => return cs

def isOffset : List Char → Bool
  | [] => true
  | ['Z'] | ['z'] => true
  | c :: cs =>
      (c == '+' || c == '-') && (do
        let (_, cs) ← field? 2 0 23 cs
        let (_, cs) ← field? 2 0 59 (← expect? ':' cs)
        return cs) == some []

def isTime (cs : List Char) : Bool := time? cs == some []

def isTimeWithOffset (cs : List Char) : Bool := (time? cs).any isOffset

def isDate (cs : List Char) : Bool := date? cs == some []

def isMoment (cs : List Char) : Bool :=
  isTime cs ||
    match date? cs with
    | some [] => true
    | some (c :: cs) => (c == 'T' || c == 't' || c == ' ') && isTimeWithOffset cs
    | none => false

/-! ### Words in a text -/

def isWordChar (c : Char) : Bool := c.isAlphanum || "_+-.:".toList.contains c

/- The longest word, and what follows it. A date and a time are one word, though a space
may stand between them. -/
def split (cs : List Char) : List Char × List Char :=
  let first := cs.takeWhile isWordChar
  match cs.dropWhile isWordChar with
  | ' ' :: d :: rest =>
      if isDate first && d.isDigit then
        (first ++ ' ' :: (d :: rest).takeWhile isWordChar, (d :: rest).dropWhile isWordChar)
      else (first, ' ' :: d :: rest)
  | rest => (first, rest)

end LintGate.Toml.Word
