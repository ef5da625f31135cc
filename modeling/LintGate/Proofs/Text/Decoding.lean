import Mathlib.Tactic.SplitIfs
import LintGate.Proofs.Text.Utf8
import LintGate.Text.Hex
/-! The octets that can be read as UTF-8 are those that texts are written with, and what is read
from them is the text. -/
namespace LintGate.Text.Utf8

/-! ### Runs without a fault -/

/- From one state to another, with the characters that are completed on the way. -/
inductive Fits : Option Owing → List UInt8 → List Char → Option Owing → Prop where
  | nil (o) : Fits o [] [] o
  | cons {o next last b bs cs ds} (step : advance o b = some (cs, next))
      (rest : Fits next bs ds last) : Fits o (b :: bs) (cs ++ ds) last

variable {o last : Option Owing} {bs : List UInt8} {cs : List Char}

theorem fitsRead (fits : Fits o bs cs last) (rest : List UInt8) :
    decodeFrom o (bs ++ rest) = (decodeFrom last rest).map (cs ++ ·) := by
  induction fits with
  | nil o => simp
  | cons step _ ih =>
    rw [List.cons_append, decodeFrom, step]
    simp only [Option.bind_eq_bind, Option.bind_some, ih]
    cases decodeFrom _ rest with
    | none => rfl
    | some ds => simp

theorem readFits (read : decodeFrom o bs = some cs) : Fits o bs cs none := by
  induction bs generalizing o cs with
  | nil =>
    cases o with
    | none =>
      cases read
      exact .nil none
    | some o => cases read
  | cons b bs ih =>
    rw [decodeFrom] at read
    obtain ⟨⟨ds, next⟩, step, read⟩ := Option.bind_eq_some_iff.mp read
    obtain ⟨rest, later, whole⟩ := Option.bind_eq_some_iff.mp read
    cases whole
    exact .cons step (ih later)

/-! ### Single octets -/

theorem octetNumber {n : Nat} (small : n < 256) : (UInt8.ofNat n).toNat = n := by
  rw [UInt8.toNat_ofNat']
  omega

theorem begunFits {b : UInt8} {next : Option Owing} {ds : List Char}
    (begins : lead b = some (ds, next)) (rest : Fits next bs cs last) :
    Fits none (b :: bs) (ds ++ cs) last := .cons begins rest

theorem advanceInside {o : Owing} {b : UInt8} (least : o.low.toNat ≤ b.toNat)
    (most : b.toNat ≤ o.high.toNat) :
    advance (some o) b =
      if o.owed ≤ 1 then some ([Char.ofNat (o.bits * 64 + (b.toNat - 0x80))], none)
      else some ([], some ⟨o.owed - 1, 0x80, 0xBF, o.bits * 64 + (b.toNat - 0x80)⟩) := by
  have inside : o.low ≤ b ∧ b ≤ o.high :=
    ⟨UInt8.le_iff_toNat_le.mpr least, UInt8.le_iff_toNat_le.mpr most⟩
  rw [advance, if_pos inside]

theorem advanceBounds {o : Owing} {b : UInt8} {step : List Char × Option Owing}
    (fits : advance (some o) b = some step) : o.low.toNat ≤ b.toNat ∧ b.toNat ≤ o.high.toNat := by
  rw [advance] at fits
  split at fits
  · rename_i inside
    exact ⟨UInt8.le_iff_toNat_le.mp inside.1, UInt8.le_iff_toNat_le.mp inside.2⟩
  · cases fits

/- A further octet of a character, by its number. -/
theorem lastFits {bits n : Nat} {low high : UInt8} {c : Char} (small : n < 256)
    (least : low.toNat ≤ n) (most : n ≤ high.toNat) (whole : bits * 64 + (n - 0x80) = c.toNat) :
    Fits (some ⟨1, low, high, bits⟩) [UInt8.ofNat n] [c] none := by
  rw [← octetNumber small] at least most
  have step := advanceInside (o := ⟨1, low, high, bits⟩) least most
  rw [if_pos (Nat.le_refl 1), octetNumber small, whole, Char.ofNat_toNat] at step
  exact .cons step (.nil none)

theorem innerFits {owed bits n : Nat} {low high : UInt8} (more : 1 < owed) (small : n < 256)
    (least : low.toNat ≤ n) (most : n ≤ high.toNat)
    (rest : Fits (some ⟨owed - 1, 0x80, 0xBF, bits * 64 + (n - 0x80)⟩) bs cs last) :
    Fits (some ⟨owed, low, high, bits⟩) (UInt8.ofNat n :: bs) cs last := by
  rw [← octetNumber small] at least most
  have step := advanceInside (o := ⟨owed, low, high, bits⟩) least most
  rw [if_neg (Nat.not_le_of_lt more), octetNumber small] at step
  exact .cons step rest

theorem leadTwo : ∀ k < 32, 2 ≤ k →
    lead (UInt8.ofNat (k + 192)) = some ([], some ⟨1, 0x80, 0xBF, k⟩) := by decide

theorem leadThree : ∀ k < 16, lead (UInt8.ofNat (k + 224)) =
    some ([], some ⟨2, if k = 0 then 0xA0 else 0x80, if k = 13 then 0x9F else 0xBF, k⟩) := by
  decide

theorem leadFour : ∀ k < 5, lead (UInt8.ofNat (k + 240)) =
    some ([], some ⟨3, if k = 0 then 0x90 else 0x80, if k = 4 then 0x8F else 0xBF, k⟩) := by
  decide

/-! ### Characters -/

theorem charFits (c : Char) : Fits none (String.utf8EncodeChar c) [c] none := by
  have valid : c.toNat < 0xD800 ∨ 0xDFFF < c.toNat ∧ c.toNat < 0x110000 := c.valid
  have number : c.val.toNat = c.toNat := rfl
  unfold String.utf8EncodeChar
  simp only [number]
  by_cases one : c.toNat ≤ 127
  · rw [if_pos one]
    exact begunFits (asciiLead (by omega)) (.nil none)
  rw [if_neg one]
  by_cases two : c.toNat ≤ 2047
  · rw [if_pos two]
    refine begunFits (leadTwo (c.toNat / 64 % 32) (by omega) (by omega)) ?_
    exact lastFits (by omega) (by simp) (by simp; omega) (by omega)
  rw [if_neg two]
  by_cases three : c.toNat ≤ 65535
  · rw [if_pos three]
    refine begunFits (leadThree (c.toNat / 4096 % 16) (by omega)) ?_
    refine innerFits (by omega) (by omega) (by split <;> simp; omega)
      (by split <;> simp <;> omega) ?_
    exact lastFits (by omega) (by simp) (by simp; omega) (by omega)
  · rw [if_neg three]
    refine begunFits (leadFour (c.toNat / 262144 % 8) (by omega)) ?_
    refine innerFits (by omega) (by omega) (by split <;> simp; omega)
      (by split <;> simp <;> omega) ?_
    refine innerFits (by omega) (by omega) (by simp) (by simp; omega) ?_
    exact lastFits (by omega) (by simp) (by simp; omega) (by omega)

/-! ### What a run has read -/

/- The octets that begin a character of more than one, with what may come next. -/
inductive Begins : Nat → Owing → Prop where
  | two {n} (least : 0xC2 ≤ n) (most : n < 0xE0) : Begins n ⟨1, 0x80, 0xBF, n - 0xC0⟩
  | three {n} {low high : UInt8} (least : 0xE0 ≤ n) (most : n < 0xF0) (above : 0x80 ≤ low.toNat)
      (under : high.toNat ≤ 0xBF) (long : n = 0xE0 → 0xA0 ≤ low.toNat)
      (surrogate : n = 0xED → high.toNat ≤ 0x9F) : Begins n ⟨2, low, high, n - 0xE0⟩
  | four {n} {low high : UInt8} (least : 0xF0 ≤ n) (most : n < 0xF5) (above : 0x80 ≤ low.toNat)
      (under : high.toNat ≤ 0xBF) (long : n = 0xF0 → 0x90 ≤ low.toNat)
      (large : n = 0xF4 → high.toNat ≤ 0x8F) : Begins n ⟨3, low, high, n - 0xF0⟩

theorem leadBegins {b : UInt8} {next : Option Owing} (begins : lead b = some (cs, next)) :
    b.toNat < 0x80 ∧ cs = [Char.ofNat b.toNat] ∧ next = none ∨
      cs = [] ∧ ∃ o, next = some o ∧ Begins b.toNat o := by
  unfold lead at begins
  dsimp only at begins
  by_cases ascii : b.toNat < 0x80
  · rw [if_pos ascii] at begins
    cases begins
    exact .inl ⟨ascii, rfl, rfl⟩
  · rw [if_neg ascii] at begins
    refine .inr ?_
    split_ifs at begins with _ two first surrogates three fourth four last <;> cases begins <;>
      refine ⟨rfl, _, rfl, ?_⟩
    · exact .two (by omega) two
    · rw [first]
      exact .three (by omega) (by omega) (by simp) (by simp) (by simp) (by omega)
    · rw [surrogates]
      exact .three (by omega) (by omega) (by simp) (by simp) (by omega) (by simp)
    · exact .three (by omega) three (by simp) (by simp) (by omega) (by omega)
    · rw [fourth]
      exact .four (by omega) (by omega) (by simp) (by simp) (by simp) (by omega)
    · exact .four (by omega) (by omega) (by simp) (by simp) (by omega) (by omega)
    · rw [last]
      exact .four (by omega) (by omega) (by simp) (by simp) (by omega) (by simp)

theorem lastParts {bits : Nat} {low high : UInt8}
    (fits : Fits (some ⟨1, low, high, bits⟩) bs cs none) :
    ∃ b rest ds, bs = b :: rest ∧ low.toNat ≤ b.toNat ∧ b.toNat ≤ high.toNat ∧
      cs = Char.ofNat (bits * 64 + (b.toNat - 0x80)) :: ds ∧ Fits none rest ds none := by
  cases fits with
  | @cons _ next _ b rest here ds step later =>
    obtain ⟨least, most⟩ := advanceBounds step
    rw [advanceInside least most, if_pos (Nat.le_refl 1)] at step
    cases step
    exact ⟨b, rest, ds, rfl, least, most, rfl, later⟩

theorem innerParts {owed bits : Nat} {low high : UInt8} (more : 1 < owed)
    (fits : Fits (some ⟨owed, low, high, bits⟩) bs cs none) :
    ∃ b rest, bs = b :: rest ∧ low.toNat ≤ b.toNat ∧ b.toNat ≤ high.toNat ∧
      Fits (some ⟨owed - 1, 0x80, 0xBF, bits * 64 + (b.toNat - 0x80)⟩) rest cs none := by
  cases fits with
  | @cons _ next _ b rest here ds step later =>
    obtain ⟨least, most⟩ := advanceBounds step
    rw [advanceInside least most, if_neg (Nat.not_le_of_lt more)] at step
    cases step
    exact ⟨b, rest, rfl, least, most, later⟩

/- An octet that is made up of digits of a character's number. -/
theorem digitOctet {b : UInt8} {n : Nat} (same : n = b.toNat) : UInt8.ofNat n = b := by
  rw [same, UInt8.ofNat_toNat]

def Further (b : UInt8) : Prop := 0x80 ≤ b.toNat ∧ b.toNat ≤ 0xBF

variable {b b₁ b₂ b₃ : UInt8} {n : Nat}

theorem twoSpelt (number : n = (b.toNat - 0xC0) * 64 + (b₁.toNat - 0x80))
    (lead : 0xC2 ≤ b.toNat ∧ b.toNat < 0xE0) (second : Further b₁) :
    String.utf8EncodeChar (Char.ofNat n) = [b, b₁] := by
  unfold Further at second
  have whole : (Char.ofNat n).val.toNat = n := charNumber (by unfold Nat.isValidChar; omega)
  unfold String.utf8EncodeChar
  simp only [whole]
  rw [if_neg (by omega), if_pos (by omega), digitOctet (b := b) (by omega),
    digitOctet (b := b₁) (by omega)]

theorem threeSpelt
    (number : n = ((b.toNat - 0xE0) * 64 + (b₁.toNat - 0x80)) * 64 + (b₂.toNat - 0x80))
    (lead : 0xE0 ≤ b.toNat ∧ b.toNat < 0xF0) (second : Further b₁)
    (long : b.toNat = 0xE0 → 0xA0 ≤ b₁.toNat) (surrogate : b.toNat = 0xED → b₁.toNat ≤ 0x9F)
    (third : Further b₂) : String.utf8EncodeChar (Char.ofNat n) = [b, b₁, b₂] := by
  unfold Further at second third
  have whole : (Char.ofNat n).val.toNat = n := charNumber (by unfold Nat.isValidChar; omega)
  unfold String.utf8EncodeChar
  simp only [whole]
  rw [if_neg (by omega), if_neg (by omega), if_pos (by omega), digitOctet (b := b) (by omega),
    digitOctet (b := b₁) (by omega), digitOctet (b := b₂) (by omega)]

theorem fourSpelt
    (number : n = (((b.toNat - 0xF0) * 64 + (b₁.toNat - 0x80)) * 64 + (b₂.toNat - 0x80)) * 64 +
      (b₃.toNat - 0x80))
    (lead : 0xF0 ≤ b.toNat ∧ b.toNat < 0xF5) (second : Further b₁)
    (long : b.toNat = 0xF0 → 0x90 ≤ b₁.toNat) (large : b.toNat = 0xF4 → b₁.toNat ≤ 0x8F)
    (third : Further b₂) (fourth : Further b₃) :
    String.utf8EncodeChar (Char.ofNat n) = [b, b₁, b₂, b₃] := by
  unfold Further at second third fourth
  have whole : (Char.ofNat n).val.toNat = n := charNumber (by unfold Nat.isValidChar; omega)
  unfold String.utf8EncodeChar
  simp only [whole]
  rw [if_neg (by omega), if_neg (by omega), if_neg (by omega), digitOctet (b := b) (by omega),
    digitOctet (b := b₁) (by omega), digitOctet (b := b₂) (by omega),
    digitOctet (b := b₃) (by omega)]

/- A run from character to character starts with the octets of its first character. -/
theorem fitsNext (fits : Fits none (b :: bs) cs none) : ∃ c before rest ds,
    b :: bs = before ++ rest ∧ cs = c :: ds ∧ String.utf8EncodeChar c = before ∧
      Fits none rest ds none := by
  cases fits with
  | cons step later =>
    rcases leadBegins step with ⟨ascii, rfl, rfl⟩ | ⟨rfl, o, rfl, begins⟩
    · have number : (Char.ofNat b.toNat).toNat = b.toNat :=
        charNumber (by unfold Nat.isValidChar; omega)
      refine ⟨_, [b], bs, _, rfl, rfl, ?_, later⟩
      rw [asciiChar (by omega), number, UInt8.ofNat_toNat]
    · cases begins with
      | two least most =>
        obtain ⟨b₁, rest, ds, rfl, least₁, most₁, rfl, onward⟩ := lastParts later
        exact ⟨_, [b, b₁], rest, ds, rfl, rfl,
          twoSpelt rfl ⟨least, most⟩ ⟨least₁, most₁⟩, onward⟩
      | three least most above under long surrogate =>
        obtain ⟨b₁, rest, rfl, least₁, most₁, later⟩ := innerParts (by omega) later
        obtain ⟨b₂, rest, ds, rfl, least₂, most₂, rfl, onward⟩ := lastParts later
        exact ⟨_, [b, b₁, b₂], rest, ds, rfl, rfl,
          threeSpelt rfl ⟨least, most⟩ ⟨by omega, by omega⟩ (by omega) (by omega)
            ⟨least₂, most₂⟩, onward⟩
      | four least most above under long large =>
        obtain ⟨b₁, rest, rfl, least₁, most₁, later⟩ := innerParts (by omega) later
        obtain ⟨b₂, rest, rfl, least₂, most₂, later⟩ := innerParts (by omega) later
        obtain ⟨b₃, rest, ds, rfl, least₃, most₃, rfl, onward⟩ := lastParts later
        exact ⟨_, [b, b₁, b₂, b₃], rest, ds, rfl, rfl,
          fourSpelt rfl ⟨least, most⟩ ⟨by omega, by omega⟩ (by omega) (by omega)
            ⟨least₂, most₂⟩ ⟨least₃, most₃⟩, onward⟩

theorem fitsSpelt (fits : Fits none bs cs none) : bs = cs.flatMap String.utf8EncodeChar := by
  induction size : bs.length using Nat.strongRecOn generalizing bs cs with
  | ind size ih =>
    cases bs with
    | nil =>
      cases fits
      rfl
    | cons b bs =>
      obtain ⟨c, before, rest, ds, split, rfl, spelt, later⟩ := fitsNext fits
      have first : 0 < before.length := by
        rw [← spelt, String.length_utf8EncodeChar]
        exact c.utf8Size_pos
      have lengths := congrArg List.length split
      rw [List.length_append] at lengths
      rw [split, List.flatMap_cons, spelt, ← ih rest.length (by omega) later rfl]

/-! ### Whole texts -/

theorem decodesEncoded (s : String) : decode? (encode s) = some s := by
  have chars : ∀ cs : List Char, decodeFrom none (cs.flatMap String.utf8EncodeChar) = some cs := by
    intro cs
    induction cs with
    | nil => rfl
    | cons c cs ih =>
      rw [List.flatMap_cons, fitsRead (charFits c), ih]
      rfl
  rw [decode?, encodeChars, chars, Option.map_some, String.ofList_toList]

theorem decodesText {s : String} : decode? bs = some s ↔ encode s = bs := by
  constructor
  · intro read
    obtain ⟨cs, chars, rfl⟩ := Option.map_eq_some_iff.mp read
    rw [encodeChars, String.toList_ofList, ← fitsSpelt (readFits chars)]
  · rintro rfl
    exact decodesEncoded s

theorem decodesNothing : decode? bs = none ↔ ∀ s, encode s ≠ bs := by
  rw [Option.eq_none_iff_forall_ne_some]
  exact forall_congr' fun s => not_congr decodesText

end LintGate.Text.Utf8
