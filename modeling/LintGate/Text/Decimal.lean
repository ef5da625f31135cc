/-! Natural numbers in decimal digits. -/
namespace LintGate.Text

def decimal (n : Nat) : String := String.ofList (Nat.toDigits 10 n)

/- The number that a list of digits spells; the empty list counts as 0. -/
def digitsValue (cs : List Char) : Nat := Nat.ofDigitChars 10 cs 0

/- Digits and nothing else, at least one of them. -/
def digits? (s : String) : Option Nat :=
  if s.toList.isEmpty || !s.toList.all Char.isDigit then none else some (digitsValue s.toList)

theorem decimalRead (n : Nat) : digits? (decimal n) = some n := by
  have value : digitsValue (Nat.toDigits 10 n) = n :=
    Nat.ofDigitChars_toDigits (by decide) (by decide)
  have only : (Nat.toDigits 10 n).all Char.isDigit = true :=
    List.all_eq_true.mpr fun c member =>
      Nat.isDigit_of_mem_toDigits (by decide) (by decide) member
  have filled : (Nat.toDigits 10 n).isEmpty = false := by simp [Nat.toDigits_ne_nil]
  simp [digits?, decimal, value, only, filled]

/- A number that may be below zero has its sign in front of the digits. -/
def signedDecimal : Int → String
  | .ofNat n => decimal n
  | .negSucc n => "-" ++ decimal (n + 1)

end LintGate.Text
