/-! Hexadecimal digits, and characters by their number. -/
namespace LintGate.Text

def hexDigit? (c : Char) : Option Nat :=
  let n := c.toNat
  if 48 ≤ n ∧ n ≤ 57 then some (n - 48)
  else if 97 ≤ n ∧ n ≤ 102 then some (n - 87)
  else if 65 ≤ n ∧ n ≤ 70 then some (n - 55)
  else none

/- The lower-case digit for a number below 16. -/
def hexDigit (n : Nat) : Char := Char.ofNat (if n < 10 then 48 + n else 87 + n)

def charOf? (n : Nat) : Option Char :=
  if n.isValidChar then some (Char.ofNat n) else none

theorem hexDigitRead (n : Nat) (small : n < 16) : hexDigit? (hexDigit n) = some n := by
  revert n; decide

theorem charNumbered (c : Char) : charOf? c.toNat = some c := by
  have valid : c.toNat.isValidChar := c.valid
  rw [charOf?, if_pos valid, Char.ofNat_toNat]

theorem charNumber {n : Nat} (valid : n.isValidChar) : (Char.ofNat n).toNat = n := by
  rw [Char.ofNat, dif_pos valid]
  rfl

end LintGate.Text
