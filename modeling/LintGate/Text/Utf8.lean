/-! Octets read as UTF-8: strictly, or with U+FFFD for each part that cannot be read.
Such a part is the longest beginning of a character that the next octet rules out. -/
namespace LintGate.Text.Utf8

/- A character that still owes octets. The next one has to lie between `low` and `high`,
which keeps out long spellings, surrogates and what lies above U+10FFFF. -/
structure Owing where
  owed : Nat
  low : UInt8
  high : UInt8
  bits : Nat
  deriving DecidableEq, Repr

def lead (b : UInt8) : Option (List Char × Option Owing) :=
  let n := b.toNat
  if n < 0x80 then some ([Char.ofNat n], none)
  else if n < 0xC2 then none
  else if n < 0xE0 then some ([], some ⟨1, 0x80, 0xBF, n - 0xC0⟩)
  else if n = 0xE0 then some ([], some ⟨2, 0xA0, 0xBF, 0⟩)
  else if n = 0xED then some ([], some ⟨2, 0x80, 0x9F, 0xD⟩)
  else if n < 0xF0 then some ([], some ⟨2, 0x80, 0xBF, n - 0xE0⟩)
  else if n = 0xF0 then some ([], some ⟨3, 0x90, 0xBF, 0⟩)
  else if n < 0xF4 then some ([], some ⟨3, 0x80, 0xBF, n - 0xF0⟩)
  else if n = 0xF4 then some ([], some ⟨3, 0x80, 0x8F, 4⟩)
  else none

/- One octet more: the characters it completes and what is owed after it. -/
def advance : Option Owing → UInt8 → Option (List Char × Option Owing)
  | none, b => lead b
  | some o, b =>
      if o.low ≤ b ∧ b ≤ o.high then
        let bits := o.bits * 64 + (b.toNat - 0x80)
        if o.owed ≤ 1 then some ([Char.ofNat bits], none)
        else some ([], some ⟨o.owed - 1, 0x80, 0xBF, bits⟩)
      else none

def replacement : Char := '\uFFFD'

/- An octet that does not continue a character may still begin the next one. -/
def advanceLossy (o : Option Owing) (b : UInt8) : List Char × Option Owing :=
  match advance o b, o, advance none b with
  | some r, _, _ => r
  | none, none, _ => ([replacement], none)
  | none, some _, some (cs, o) => (replacement :: cs, o)
  | none, some _, none => ([replacement, replacement], none)

def decodeFrom : Option Owing → List UInt8 → Option (List Char)
  | none, [] => some []
  | some _, [] => none
  | o, b :: bs => do
      let (cs, o) ← advance o b
      let rest ← decodeFrom o bs
      some (cs ++ rest)

def lossyFrom : Option Owing → List UInt8 → List Char
  | none, [] => []
  | some _, [] => [replacement]
  | o, b :: bs =>
      let (cs, o) := advanceLossy o b
      cs ++ lossyFrom o bs

def decode? (bs : List UInt8) : Option String := (decodeFrom none bs).map String.ofList

def decodeLossy (bs : List UInt8) : String := String.ofList (lossyFrom none bs)

def encode (s : String) : List UInt8 := s.toUTF8.toList

end LintGate.Text.Utf8
