import LintGate.Proofs.Text.Decoding
/-! Reading octets with U+FFFD for what cannot be read. Every text comes back from its octets,
whatever follows them, and an ASCII octet always stands for its character: no beginning of another
character can take it in. So octets between two ASCII characters are read by themselves. -/
namespace LintGate.Text.Utf8

/-! ### Runs without a fault -/

theorem lossyStep (o : Option Owing) (b : UInt8) (bs : List UInt8) :
    lossyFrom o (b :: bs) = (advanceLossy o b).1 ++ lossyFrom (advanceLossy o b).2 bs := by
  rw [lossyFrom]

/- Where an octet fits it is read as in a text without faults. -/
theorem fittingRead {o next : Option Owing} {b : UInt8} {cs : List Char}
    (fits : advance o b = some (cs, next)) (rest : List UInt8) :
    lossyFrom o (b :: rest) = cs ++ lossyFrom next rest := by
  simp [lossyFrom, advanceLossy, fits]

theorem fitsLossy {o last : Option Owing} {bs : List UInt8} {cs : List Char}
    (fits : Fits o bs cs last) (rest : List UInt8) :
    lossyFrom o (bs ++ rest) = cs ++ lossyFrom last rest := by
  induction fits with
  | nil => rfl
  | cons step _ ih => rw [List.cons_append, fittingRead step, ih, List.append_assoc]

theorem charRead (c : Char) (rest : List UInt8) :
    lossyFrom none (String.utf8EncodeChar c ++ rest) = c :: lossyFrom none rest :=
  fitsLossy (charFits c) rest

theorem textRead (s : String) (rest : List UInt8) :
    lossyFrom none (encode s ++ rest) = s.toList ++ lossyFrom none rest := by
  rw [encodeChars]
  induction s.toList with
  | nil => rfl
  | cons c cs ih => rw [List.flatMap_cons, List.append_assoc, charRead, ih, List.cons_append]

theorem encodedRead (s : String) : decodeLossy (encode s) = s := by
  have whole := textRead s []
  rw [List.append_nil] at whole
  rw [decodeLossy, whole, lossyFrom, List.append_nil, String.ofList_toList]

/-! ### Beginnings of characters -/

/- The least character that may still come of a beginning, and the first one beyond the greatest. -/
def Owing.least (o : Owing) : Nat :=
  (o.bits * 64 + (o.low.toNat - 0x80)) * Nat.pow 64 (o.owed - 1)

def Owing.bound (o : Owing) : Nat :=
  (o.bits * 64 + (o.high.toNat - 0x80) + 1) * Nat.pow 64 (o.owed - 1)

/- No ASCII octet goes on with it, and what it can become is a character and not an ASCII one. -/
structure Owing.Sound (o : Owing) : Prop where
  low : 0x80 ≤ o.low.toNat
  least : 0x80 ≤ o.least
  whole : o.bound ≤ 0xD800 ∨ 0xE000 ≤ o.least ∧ o.bound ≤ 0x110000

theorem begunSound {n : Nat} {o : Owing} (begins : Begins n o) : o.Sound := by
  cases begins with
  | two least most =>
    exact ⟨by simp, by simp [Owing.least]; omega, by simp [Owing.least, Owing.bound]; omega⟩
  | three least most above under long surrogate =>
    exact ⟨above, by simp [Owing.least]; omega, by simp [Owing.least, Owing.bound]; omega⟩
  | four least most above under long large =>
    exact ⟨above, by simp [Owing.least]; omega, by simp [Owing.least, Owing.bound]; omega⟩

/- An octet more narrows down what may come. -/
theorem continuedNarrows {o : Owing} {n : Nat} (more : 1 < o.owed) (least : o.low.toNat ≤ n)
    (most : n ≤ o.high.toNat) :
    o.least ≤ Owing.least ⟨o.owed - 1, 0x80, 0xBF, o.bits * 64 + (n - 0x80)⟩ ∧
      Owing.bound ⟨o.owed - 1, 0x80, 0xBF, o.bits * 64 + (n - 0x80)⟩ ≤ o.bound := by
  have number (m : Nat) :
      m * Nat.pow 64 (o.owed - 1) = m * 64 * Nat.pow 64 (o.owed - 1 - 1) := by
    obtain ⟨k, more⟩ : ∃ k, o.owed - 1 = k + 1 := ⟨o.owed - 2, by omega⟩
    rw [more, Nat.add_sub_cancel, Nat.mul_assoc, Nat.mul_comm 64]
    rfl
  constructor
  · rw [Owing.least, number]
    exact Nat.mul_le_mul_right _ (by simp; omega)
  · unfold Owing.bound
    rw [number]
    exact Nat.mul_le_mul_right _ (by simp; omega)

theorem asciiRefused {o : Owing} {b : UInt8} (sound : o.Sound) (ascii : b.toNat < 0x80) :
    advance (some o) b = none := by
  have outside : ¬ (o.low ≤ b ∧ b ≤ o.high) := by
    rw [UInt8.le_iff_toNat_le]
    have low := sound.low
    omega
  exact if_neg outside

/-! ### Steps -/

/- What an octet adds to a text, and what it leaves begun: characters that are not ASCII, or the
octet's own. -/
structure Adds (b : UInt8) (step : List Char × Option Owing) : Prop where
  chars : ∀ c ∈ step.1, 0x80 ≤ c.toNat ∨ c.toNat = b.toNat
  rest : ∀ o ∈ step.2, o.Sound

theorem leadAdds {b : UInt8} {step : List Char × Option Owing} (begins : lead b = some step) :
    Adds b step := by
  rcases leadBegins begins with ⟨ascii, chars, rest⟩ | ⟨chars, o, rest, begun⟩
  · refine ⟨?_, by simp [rest]⟩
    have valid : b.toNat.isValidChar := by
      unfold Nat.isValidChar
      omega
    rw [chars, List.forall_mem_singleton, charNumber valid]
    exact .inr rfl
  · exact ⟨by simp [chars], by simpa [rest] using begunSound begun⟩

theorem continuedAdds {o : Owing} {b : UInt8} {step : List Char × Option Owing} (sound : o.Sound)
    (fits : advance (some o) b = some step) : Adds b step := by
  obtain ⟨low, least, whole⟩ := sound
  simp only [advance] at fits
  split at fits
  · rename_i inside
    rw [UInt8.le_iff_toNat_le, UInt8.le_iff_toNat_le] at inside
    split at fits
    · rename_i last
      cases fits
      have power : Nat.pow 64 (o.owed - 1) = 1 := by rw [Nat.sub_eq_zero_of_le last]
      rw [Owing.least, power, Nat.mul_one] at least whole
      rw [Owing.bound, power, Nat.mul_one] at whole
      have valid : (o.bits * 64 + (b.toNat - 0x80)).isValidChar := by
        unfold Nat.isValidChar
        omega
      refine ⟨List.forall_mem_singleton.mpr (.inl ?_), by simp⟩
      rw [charNumber valid]
      omega
    · rename_i more
      cases fits
      obtain ⟨above, below⟩ := continuedNarrows (Nat.lt_of_not_le more) inside.1 inside.2
      refine ⟨by simp, ?_⟩
      rintro x ⟨⟩
      exact ⟨by simp, by omega, by omega⟩
  · cases fits

/- An octet that does not go on with a beginning is read as if nothing had begun. -/
theorem refusedRead {o : Owing} {b : UInt8} (refused : advance (some o) b = none) :
    advanceLossy (some o) b =
      (replacement :: (advanceLossy none b).1, (advanceLossy none b).2) := by
  cases begins : advance none b with
  | none => simp only [advanceLossy, refused, begins]
  | some step => simp only [advanceLossy, refused, begins]

theorem freshAdds (b : UInt8) : Adds b (advanceLossy none b) := by
  cases begins : advance none b with
  | none =>
    simp only [advanceLossy, begins]
    exact ⟨List.forall_mem_singleton.mpr (.inl (by decide)), by simp⟩
  | some step =>
    simp only [advanceLossy, begins]
    exact leadAdds begins

theorem lossyAdds {o : Option Owing} (sound : ∀ x ∈ o, x.Sound) (b : UInt8) :
    Adds b (advanceLossy o b) := by
  cases o with
  | none => exact freshAdds b
  | some o =>
    cases fits : advance (some o) b with
    | none =>
      obtain ⟨chars, rest⟩ := freshAdds b
      rw [refusedRead fits]
      exact ⟨List.forall_mem_cons.mpr ⟨.inl (by decide), chars⟩, rest⟩
    | some step =>
      simp only [advanceLossy, fits]
      exact continuedAdds (sound o rfl) fits

/-! ### Whole texts -/

theorem lossyChars {o : Option Owing} (sound : ∀ x ∈ o, x.Sound) (bs : List UInt8) :
    ∀ c ∈ lossyFrom o bs, 0x80 ≤ c.toNat ∨ ∃ b ∈ bs, c.toNat = b.toNat := by
  have mark : 0x80 ≤ replacement.toNat := by decide
  induction bs generalizing o with
  | nil => cases o <;> simp [lossyFrom, mark]
  | cons b bs ih =>
    obtain ⟨chars, rest⟩ := lossyAdds sound b
    intro c member
    rw [lossyStep] at member
    rcases List.mem_append.mp member with here | later
    · exact (chars c here).imp_right fun same => ⟨b, by simp, same⟩
    · exact (ih rest c later).imp_right fun ⟨d, inside, same⟩ => ⟨d, by simp [inside], same⟩

/- An ASCII octet ends whatever has begun before it. -/
theorem asciiEnds {o : Option Owing} (sound : ∀ x ∈ o, x.Sound) {c : Char} (ascii : c.toNat < 0x80)
    (bs rest : List UInt8) :
    lossyFrom o (bs ++ UInt8.ofNat c.toNat :: rest) =
      lossyFrom o bs ++ c :: lossyFrom none rest := by
  induction bs generalizing o with
  | nil =>
    have begins := asciiLead ascii
    cases o with
    | none => exact fittingRead (o := none) begins rest
    | some o =>
      have number := octetNumber (n := c.toNat) (by omega)
      have refused := asciiRefused (sound o rfl) (number.symm ▸ ascii)
      have fresh : advanceLossy none (UInt8.ofNat c.toNat) = ([c], none) := by
        simp only [advanceLossy, advance, begins]
      rw [List.nil_append, lossyStep, refusedRead refused, fresh]
      rfl
  | cons b bs ih =>
    rw [List.cons_append, lossyStep, lossyStep, ih (lossyAdds sound b).rest, List.append_assoc]

example : decodeLossy [0x61, 0xF0, 0x9F, 0x92, 0x22, 0xA9] = "a\uFFFD\x22\uFFFD" := by decide

end LintGate.Text.Utf8
