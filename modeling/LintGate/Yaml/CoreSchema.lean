import LintGate.Yaml.Document
import LintGate.Text.Decimal
import LintGate.Text.Hex
/-! What a plain scalar says by its spelling alone: nothing, a truth value, a number or a text.
Whatever looks like a number that is too big to be held is a text. -/
namespace LintGate.Yaml.CoreSchema

inductive Kind
  | null
  | boolean (value : Bool)
  | integer
  | float
  | text
  deriving DecidableEq, Repr

def isNull (s : String) : Bool := ["null", "Null", "NULL", "~"].contains s

def boolean? (s : String) : Option Bool :=
  if ["true", "True", "TRUE"].contains s then some true
  else if ["false", "False", "FALSE"].contains s then some false
  else none

/-! ### Integers -/

def digitIn? (radix : Nat) (c : Char) : Option Nat :=
  match Text.hexDigit? c with
  | some d => if d < radix then some d else none
  | none => none

/- The number that digits of a radix spell; no digits spell none. -/
def valueIn? (radix : Nat) : List Char → Option Nat
  | [] => none
  | cs => (cs.mapM (digitIn? radix)).map fun ds => ds.foldl (fun n d => n * radix + d) 0

def radix? : List Char → Option (Nat × List Char)
  | '0' :: 'x' :: cs => some (16, cs)
  | '0' :: 'o' :: cs => some (8, cs)
  | '0' :: 'b' :: cs => some (2, cs)
  | _ => none

def magnitude? (cs : List Char) : Option Nat :=
  match radix? cs with
  | some (radix, digits) => valueIn? radix digits
  | none => valueIn? 10 cs

def signed : List Char → Option Char × List Char
  | '+' :: cs => (some '+', cs)
  | '-' :: cs => (some '-', cs)
  | cs => (none, cs)

/- Digits that begin with a zero they do not need are a text. -/
def isPaddedZero (cs : List Char) : Bool :=
  match (signed cs).2 with
  | '0' :: d :: ds => (d :: ds).all Char.isDigit
  | _ => false

/- Integers are held in 128 bits, one of which tells the sign of those below zero. -/
def isInteger (cs : List Char) : Bool :=
  !isPaddedZero cs &&
    match signed cs with
    | (some '-', ds) => (magnitude? ds).any (· ≤ Nat.pow 2 127)
    | (_, ds) => (magnitude? ds).any (· < Nat.pow 2 128)

/-! ### Floats -/

/- A number of the form `digits * 10 ^ exponent`. -/
structure Scaled where
  digits : Nat
  exponent : Int
  deriving DecidableEq, Repr

def exponent? : List Char → Option Int
  | [] => some 0
  | e :: cs =>
      let (sign, ds) := signed cs
      if (e == 'e' || e == 'E') && !ds.isEmpty && ds.all Char.isDigit then
        let n : Int := Text.digitsValue ds
        some (if sign = some '-' then -n else n)
      else none

/- Digits with or without a point, at least one of them, and perhaps a power of ten. -/
def scaled? (cs : List Char) : Option Scaled := do
  let whole := cs.takeWhile Char.isDigit
  let (fraction, cs) := match cs.dropWhile Char.isDigit with
    | '.' :: cs => (cs.takeWhile Char.isDigit, cs.dropWhile Char.isDigit)
    | cs => ([], cs)
  if whole.isEmpty && fraction.isEmpty then none
  else
    let e ← exponent? cs
    some ⟨Text.digitsValue (whole ++ fraction), e - fraction.length⟩

/- The least number that rounds to infinity among the doubles. -/
def overflow : Nat := Nat.pow 2 1024 - Nat.pow 2 970

/- Far from the bound the number of digits decides, so that no huge power is computed. -/
def Scaled.isFinite (x : Scaled) : Bool :=
  let order := (Nat.toDigits 10 x.digits).length + x.exponent
  if x.digits = 0 ∨ order < 300 then true
  else if order > 310 then false
  else
    match x.exponent with
    | .ofNat e => x.digits * Nat.pow 10 e < overflow
    | .negSucc e => x.digits < overflow * Nat.pow 10 (e + 1)

def isFloat (cs : List Char) : Bool :=
  let unsigned := (signed cs).2
  if [".inf", ".Inf", ".INF"].contains (String.ofList unsigned) then true
  else if [".nan", ".NaN", ".NAN"].contains (String.ofList cs) then true
  else !isPaddedZero cs && (scaled? unsigned).any Scaled.isFinite

def kind (s : String) : Kind :=
  if s.isEmpty || isNull s then .null
  else match boolean? s with
    | some b => .boolean b
    | none =>
        if isInteger s.toList then .integer
        else if isFloat s.toList then .float
        else .text

end LintGate.Yaml.CoreSchema
