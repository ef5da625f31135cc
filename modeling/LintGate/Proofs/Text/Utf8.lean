import LintGate.Text.Utf8
/-! How a text is written in octets. Each character has octets of its own, and an ASCII character is
one octet. -/
namespace LintGate.Text.Utf8

theorem octetsFrom (bs : ByteArray) (i : Nat) (before : List UInt8) :
    ByteArray.toList.loop bs i before = before.reverse ++ bs.data.toList.drop i := by
  fun_induction ByteArray.toList.loop bs i before with
  | case1 i before inside ih =>
    have there : i < bs.data.toList.length := by simpa using inside
    rw [ih, List.drop_eq_getElem_cons there]
    simp [ByteArray.get!, inside]
  | case2 i before outside =>
    rw [List.drop_eq_nil_of_le (by simpa using Nat.le_of_not_lt outside)]
    simp

theorem encodeChars (s : String) : encode s = s.toList.flatMap String.utf8EncodeChar := by
  have octets : (String.ofList s.toList).toUTF8.data.toList =
      s.toList.flatMap String.utf8EncodeChar := List.toList_data_toByteArray
  rw [encode, ByteArray.toList, octetsFrom, ← octets, String.ofList_toList]
  rfl

theorem asciiChar {c : Char} (ascii : c.toNat < 0x80) :
    String.utf8EncodeChar c = [UInt8.ofNat c.toNat] := by
  have small : c.val.toNat ≤ 0x7f := Nat.le_of_lt_succ ascii
  exact if_pos small

theorem asciiLead {c : Char} (ascii : c.toNat < 0x80) :
    lead (UInt8.ofNat c.toNat) = some ([c], none) := by
  have number : (UInt8.ofNat c.toNat).toNat = c.toNat := by
    rw [UInt8.toNat_ofNat']
    omega
  rw [lead, number, if_pos ascii, Char.ofNat_toNat]

end LintGate.Text.Utf8
