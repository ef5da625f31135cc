import LintGate.Proofs.Json.Scanning
/-! Strings in quotes. The scanner keeps the pieces that the escapes name; they join to a text
exactly where the literal is a spelling of that text. -/
namespace LintGate.Json
open Grammar (HexDigit Hex4 Plain Spelling Content Literal NoText shortEscapes quoted
  highHalf lowHalf)

namespace Piece

/- The pieces of a literal, in their order. -/
inductive Spelt : List Piece → List Char → Prop where
  | nil : Spelt [] []
  | itself {c ps cs} (plain : Plain c) (tail : Spelt ps cs) : Spelt (.char c :: ps) (c :: cs)
  | short {c e ps cs} (listed : (c, e) ∈ shortEscapes) (tail : Spelt ps cs) :
      Spelt (.char c :: ps) ('\\' :: e :: cs)
  | unit {n p ds ps cs} (hex : Hex4 n ds) (named : ofUnit n = p) (tail : Spelt ps cs) :
      Spelt (p :: ps) ('\\' :: 'u' :: (ds ++ cs))

theorem literalSpelt {cs} (h : Literal cs) : ∃ ps, Spelt ps cs := by
  induction h with
  | nil => exact ⟨[], .nil⟩
  | itself plain tail ih => obtain ⟨ps, h⟩ := ih; exact ⟨_, .itself plain h⟩
  | short listed tail ih => obtain ⟨ps, h⟩ := ih; exact ⟨_, .short listed h⟩
  | unit hex tail ih => obtain ⟨ps, h⟩ := ih; exact ⟨_, .unit hex rfl h⟩

/-! ### Characters by their number -/

theorem hex4Small {n ds} (h : Hex4 n ds) : n < 0x10000 := by
  cases h with
  | digits first second third fourth =>
    have a := first.1
    have b := second.1
    have c := third.1
    have d := fourth.1
    omega

theorem unitChar {c : Char} (small : c.toNat < 0x10000) : ofUnit c.toNat = .char c := by
  have valid : c.toNat < 0xD800 ∨ 0xDFFF < c.toNat ∧ c.toNat < 0x110000 := c.valid
  have outside : ¬ (0xD800 ≤ c.toNat ∧ c.toNat < 0xE000) := by omega
  rw [ofUnit, if_neg outside, Char.ofNat_toNat]

theorem unitSurrogate {n : Nat} (low : 0xD800 ≤ n) (high : n < 0xE000) : ofUnit n = .surrogate n :=
  if_pos ⟨low, high⟩

theorem charUnit {n : Nat} {c : Char} (small : n < 0x10000) (named : ofUnit n = .char c) :
    c.toNat = n := by
  unfold ofUnit at named
  split at named
  · contradiction
  · cases named
    exact Text.charNumber (by unfold Nat.isValidChar; omega)

theorem surrogateUnit {n m : Nat} (named : ofUnit n = .surrogate m) :
    n = m ∧ 0xD800 ≤ n ∧ n < 0xE000 := by
  unfold ofUnit at named
  split at named
  · cases named; exact ⟨rfl, ‹_›⟩
  · contradiction

theorem pairNumber {h l : Nat} (h₁ : 0xD800 ≤ h) (h₂ : h < 0xDC00) (l₂ : l < 0xE000) :
    (pair h l).toNat = 0x10000 + (h - 0xD800) * 0x400 + (l - 0xDC00) :=
  Text.charNumber (by unfold Nat.isValidChar; omega)

theorem pairHalves {c : Char} (above : 0x10000 ≤ c.toNat) :
    highHalf c < 0xDC00 ∧ lowHalf c < 0xE000 ∧ pair (highHalf c) (lowHalf c) = c := by
  have valid : c.toNat < 0xD800 ∨ 0xDFFF < c.toNat ∧ c.toNat < 0x110000 := c.valid
  have high : highHalf c < 0xDC00 := by unfold highHalf; omega
  have low : lowHalf c < 0xE000 := by unfold lowHalf; omega
  refine ⟨high, low, Char.toNat_inj.mp ?_⟩
  rw [pairNumber (by unfold highHalf; omega) high low]
  unfold highHalf lowHalf
  omega

/-! ### Joining -/

theorem contentSpelt {s cs} (h : Content s cs) : ∃ ps, Spelt ps cs ∧ join? ps = some s := by
  induction h with
  | nil => exact ⟨[], .nil, rfl⟩
  | @cons c sp s cs head tail ih =>
    obtain ⟨ps, spelt, joined⟩ := ih
    cases head with
    | itself plain => exact ⟨.char c :: ps, .itself plain spelt, by simp [join?, joined]⟩
    | short listed => exact ⟨.char c :: ps, .short listed spelt, by simp [join?, joined]⟩
    | unit hex =>
      exact ⟨.char c :: ps, .unit hex (unitChar (hex4Small hex)) spelt, by simp [join?, joined]⟩
    | pair above high low =>
      obtain ⟨h₂, l₂, whole⟩ := pairHalves above
      have h₁ : 0xD800 ≤ highHalf c := Nat.le_add_right _ _
      have l₁ : 0xDC00 ≤ lowHalf c := Nat.le_add_right _ _
      refine ⟨.surrogate (highHalf c) :: .surrogate (lowHalf c) :: ps, ?_, ?_⟩
      · have second := Spelt.unit low (unitSurrogate (by omega) l₂) spelt
        simpa using Spelt.unit high (unitSurrogate h₁ (by omega)) second
      · simp [join?, h₂, l₁, joined, whole]

theorem surrogateSpelt {m ps cs} (h : Spelt (.surrogate m :: ps) cs) :
    ∃ ds rest, Hex4 m ds ∧ 0xD800 ≤ m ∧ m < 0xE000 ∧ Spelt ps rest ∧
      cs = '\\' :: 'u' :: (ds ++ rest) := by
  cases h with
  | unit hex named tail =>
    obtain ⟨rfl, low, high⟩ := surrogateUnit named
    exact ⟨_, _, hex, low, high, tail, rfl⟩

theorem charSpelt {c ps cs} (h : Spelt (.char c :: ps) cs) :
    ∃ sp rest, Spelling c sp ∧ Spelt ps rest ∧ cs = sp ++ rest := by
  cases h with
  | itself plain tail => exact ⟨_, _, .itself plain, tail, rfl⟩
  | short listed tail => exact ⟨_, _, .short listed, tail, rfl⟩
  | unit hex named tail =>
    have number := charUnit (hex4Small hex) named
    exact ⟨_, _, .unit (number ▸ hex), tail, rfl⟩

theorem joinedContent {ps s cs} (h : Spelt ps cs) (joined : join? ps = some s) : Content s cs := by
  fun_induction join? ps generalizing s cs with
  | case1 => cases h; cases joined; exact .nil
  | case2 c ps ih =>
    obtain ⟨tail, found, rfl⟩ := Option.map_eq_some_iff.mp joined
    obtain ⟨sp, rest, spelling, spelt, rfl⟩ := charSpelt h
    exact .cons spelling (ih spelt found)
  | case3 high low ps apart ih =>
    obtain ⟨tail, found, rfl⟩ := Option.map_eq_some_iff.mp joined
    obtain ⟨hs, rest, hexHigh, h₁, _, spelt, rfl⟩ := surrogateSpelt h
    obtain ⟨ls, rest, hexLow, _, l₂, tailSpelt, rfl⟩ := surrogateSpelt spelt
    have number := pairNumber h₁ apart.1 l₂
    have first : high = highHalf (pair high low) := by unfold highHalf; omega
    have second : low = lowHalf (pair high low) := by unfold lowHalf; omega
    have spelling : Spelling (pair high low) ('\\' :: 'u' :: (hs ++ '\\' :: 'u' :: ls)) :=
      .pair (by omega) (first ▸ hexHigh) (second ▸ hexLow)
    simpa using Content.cons spelling (ih tailSpelt found)
  | case4 => contradiction
  | case5 => contradiction

theorem noTextSpelt {cs} (h : NoText cs) : ∃ ps, Spelt ps cs ∧ join? ps = none := by
  obtain ⟨ps, spelt⟩ := literalSpelt h.1
  cases joined : join? ps with
  | none => exact ⟨ps, spelt, joined⟩
  | some s => exact absurd (joinedContent spelt joined) (h.2 s)

end Piece

/-! ### Scanning -/
namespace Token

theorem eitherCaseRead {n : Nat} {c : Char} (h : HexDigit n c) : Text.hexDigit? c = some n := by
  obtain ⟨small, rfl | rfl⟩ := h
  · exact Text.hexDigitRead n small
  · revert n; decide

theorem hex4Scanned {n ds} (h : Hex4 n ds) (seen : List Piece) (rest : List Char) :
    scanFrom (.hex seen 4 0) (ds ++ rest) = scanFrom (.string (Piece.ofUnit n :: seen)) rest := by
  cases h with
  | digits first second third fourth =>
    simp [scanFrom, advance, eitherCaseRead first, eitherCaseRead second,
      eitherCaseRead third, eitherCaseRead fourth]

theorem shortEscapeRead : ∀ e ∈ shortEscapes, e.2 ≠ 'u' ∧ simpleEscape? e.2 = some e.1 := by decide

theorem speltScanned {ps cs} (h : Piece.Spelt ps cs) (seen : List Piece) (rest : List Char) :
    scanFrom (.string seen) (cs ++ '\x22' :: rest) =
      (scanFrom .between rest).map ([.string (seen.reverse ++ ps)] ++ ·) := by
  induction h generalizing seen with
  | nil => cases tail : scanFrom .between rest <;> simp [scanFrom, advance, tail]
  | @itself c ps cs plain tail ih =>
    obtain ⟨visible, quote, slash⟩ := plain
    have step := ih (.char c :: seen)
    simp only [List.cons_append, scanFrom, advance]
    simp [quote, slash, Nat.not_lt.mpr visible, step]
  | @short c e ps cs listed tail ih =>
    obtain ⟨other, read⟩ := shortEscapeRead _ listed
    have step := ih (.char c :: seen)
    simp only [List.cons_append, scanFrom, advance]
    simp [other, read, step]
  | @unit n p ds ps cs hex named tail ih =>
    have step := ih (p :: seen)
    rw [← named, ← hex4Scanned hex seen] at step
    simp only [List.cons_append, List.append_assoc, scanFrom, advance]
    simp [step, named]

theorem scansQuoted {ps cs} (h : Piece.Spelt ps cs) : Scans (quoted cs) [.string ps] := by
  intro rest _
  have scanned := speltScanned h [] rest
  simp only [quoted, List.cons_append, List.append_assoc, scanFrom, advance, start]
  simpa [isSpace] using scanned

end Token
end LintGate.Json
