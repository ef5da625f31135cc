import LintGate.Proofs.Json.Quoted
/-! The scanner takes nothing but the words of the grammar. Whatever it makes of a text, the text
is made up of spellings of those words, with nothing but spaces between them. -/
namespace LintGate.Json
open Grammar (Spaces HexDigit Hex4 Plain quoted spacesNone spacesOne spacesAppend)

/-! ### Numbers -/
namespace Number
open Grammar (Digits Whole Fraction Exponent)

theorem digitsTaken {cs : List Char} (filled : (!cs.isEmpty) = true)
    (all : cs.all Char.isDigit = true) : Digits cs := by
  refine ⟨?_, List.all_eq_true.mp all⟩
  rintro rfl
  contradiction

theorem exponentTaken {cs : List Char} (h : exponent cs = true) : Exponent cs := by
  cases cs with
  | nil => exact .none
  | cons e cs =>
    have taken {sign ds : List Char} (signed : sign = [] ∨ sign = ['+'] ∨ sign = ['-'])
        (split : cs = sign ++ ds)
        (rest : ((e == 'e' || e == 'E') && !ds.isEmpty && ds.all Char.isDigit) = true) :
        Exponent (e :: cs) := by
      rw [Bool.and_eq_true, Bool.and_eq_true] at rest
      obtain ⟨⟨letter, filled⟩, all⟩ := rest
      rw [split]
      exact .digits (by simpa using letter) signed (digitsTaken filled all)
    unfold exponent at h
    dsimp only at h
    split at h
    · exact taken (.inr (.inl rfl)) rfl h
    · exact taken (.inr (.inr rfl)) rfl h
    · exact taken (.inl rfl) rfl h

theorem runTaken (cs : List Char) : ∀ c ∈ cs.takeWhile Char.isDigit, c.isDigit = true := by
  intro c member
  exact List.all_eq_true.mp List.all_takeWhile c member

theorem fractionTaken {cs : List Char} (h : fraction cs = true) :
    ∃ f e, cs = f ++ e ∧ Fraction f ∧ Exponent e := by
  unfold fraction at h
  split at h
  · rename_i ds
    obtain ⟨filled, rest⟩ := Bool.and_eq_true_iff.mp h
    refine ⟨'.' :: ds.takeWhile Char.isDigit, ds.dropWhile Char.isDigit, ?_,
      .digits ⟨?_, runTaken ds⟩, exponentTaken rest⟩
    · rw [List.cons_append, List.takeWhile_append_dropWhile]
    · intro empty
      rw [empty] at filled
      contradiction
  · exact ⟨[], cs, rfl, .none, exponentTaken h⟩

theorem unsignedTaken {cs : List Char} (h : unsigned cs = true) :
    ∃ w f e, cs = w ++ (f ++ e) ∧ Whole w ∧ Fraction f ∧ Exponent e := by
  unfold unsigned at h
  split at h
  · contradiction
  · obtain ⟨f, e, rfl, part, tail⟩ := fractionTaken h
    exact ⟨['0'], f, e, rfl, .zero, part, tail⟩
  · rename_i c ds other
    obtain ⟨digit, rest⟩ := Bool.and_eq_true_iff.mp h
    obtain ⟨f, e, split, part, tail⟩ := fractionTaken rest
    refine ⟨c :: ds.takeWhile Char.isDigit, f, e, ?_, .digits digit ?_ (runTaken ds), part, tail⟩
    · rw [List.cons_append, ← split, List.takeWhile_append_dropWhile]
    · rintro rfl
      exact other rfl

theorem validTaken {cs : List Char} (h : valid cs = true) : Grammar.Number cs := by
  unfold valid at h
  split at h
  · obtain ⟨w, f, e, rfl, whole, part, tail⟩ := unsignedTaken h
    exact .negative whole part tail
  · obtain ⟨w, f, e, rfl, whole, part, tail⟩ := unsignedTaken h
    exact .positive whole part tail

end Number

/-! ### Words -/
namespace Token

inductive Word : Token → List Char → Prop where
  | openArray : Word .openArray ['[']
  | closeArray : Word .closeArray [']']
  | openObject : Word .openObject ['{']
  | closeObject : Word .closeObject ['}']
  | comma : Word .comma [',']
  | colon : Word .colon [':']
  | null : Word .null ['n', 'u', 'l', 'l']
  | yes : Word (.boolean true) ['t', 'r', 'u', 'e']
  | no : Word (.boolean false) ['f', 'a', 'l', 's', 'e']
  | number {cs} (h : Grammar.Number cs) : Word (.number cs) cs
  | string {ps cs} (h : Piece.Spelt ps cs) : Word (.string ps) (quoted cs)

/- A text as a row of words, with spaces before each of them and after the last. -/
inductive Lexed : List Token → List Char → Prop where
  | nil {a} (spaces : Spaces a) : Lexed [] a
  | cons {a t w ts cs} (before : Spaces a) (word : Word t w) (rest : Lexed ts cs) :
      Lexed (t :: ts) (a ++ (w ++ cs))

theorem lexedWord {t : Token} {w : List Char} {ts : List Token} {cs : List Char} (word : Word t w)
    (rest : Lexed ts cs) : Lexed (t :: ts) (w ++ cs) :=
  .cons spacesNone word rest

theorem lexedSpace {c : Char} {ts : List Token} {cs : List Char} (space : isSpace c = true)
    (h : Lexed ts cs) : Lexed ts (c :: cs) := by
  have first : Spaces [c] := spacesOne (by simpa [isSpace, or_assoc] using space)
  cases h with
  | nil spaces => exact .nil (spacesAppend first spaces)
  | cons before word rest => exact .cons (spacesAppend first before) word rest

theorem punctuationWord {c : Char} {t : Token} (h : punctuation? c = some t) : Word t [c] := by
  unfold punctuation? at h
  split at h <;> cases h
  · exact .openArray
  · exact .closeArray
  · exact .openObject
  · exact .closeObject
  · exact .comma
  · exact .colon

theorem literalWord {cs : List Char} {t : Token} (h : literal? cs = some t) : Word t cs := by
  unfold literal? at h
  split at h
  · rename_i same
    subst same
    cases h
    exact .null
  · split at h
    · rename_i same
      subst same
      cases h
      exact .yes
    · split at h <;> cases h
      rename_i same
      subst same
      exact .no

theorem numberWord {cs : List Char} {t : Token} (h : number? cs = some t) : Word t cs := by
  unfold number? at h
  split at h <;> cases h
  rename_i valid
  exact .number (Number.validTaken valid)

/-! ### Escapes -/

theorem hexTaken {c : Char} {d : Nat} (h : Text.hexDigit? c = some d) : HexDigit d c := by
  have small : c.toNat < 103 := by
    refine Nat.lt_of_not_le ?_
    intro large
    have none : Text.hexDigit? c = none := by
      unfold Text.hexDigit?
      dsimp only
      rw [if_neg (by omega), if_neg (by omega), if_neg (by omega)]
    rw [none] at h
    cases h
  have listed : ∀ n < 103, ∀ d ∈ Text.hexDigit? (Char.ofNat n), d < 16 ∧
      (Char.ofNat n = Text.hexDigit d ∨ Char.ofNat n = (Text.hexDigit d).toUpper) := by decide
  have found := listed c.toNat small
  rw [Char.ofNat_toNat] at found
  exact found d h

theorem escapeTaken {c e : Char} (h : simpleEscape? e = some c) :
    (c, e) ∈ Grammar.shortEscapes := by
  unfold simpleEscape? at h
  split at h <;> cases h <;> simp [Grammar.shortEscapes]

/- Digits that are still owed, and the number that they make of the one so far. -/
inductive HexRun : Nat → Nat → List Char → Nat → Prop where
  | nil {n} : HexRun 0 n [] n
  | cons {owed value d c ds n} (digit : HexDigit d c) (rest : HexRun owed (value * 16 + d) ds n) :
      HexRun (owed + 1) value (c :: ds) n

theorem hexRunWhole {n : Nat} {ds : List Char} (h : HexRun 4 0 ds n) : Hex4 n ds := by
  obtain _ | ⟨first, h⟩ := h
  obtain _ | ⟨second, h⟩ := h
  obtain _ | ⟨third, h⟩ := h
  obtain _ | ⟨fourth, h⟩ := h
  cases h
  simpa using Hex4.digits first second third fourth

/-! ### Scanning -/

/- The scanner is within a literal or a number, and has seen its beginning. -/
def InRun (read : List Char → Option Token) (seen : List Char) (ts : List Token)
    (cs : List Char) : Prop :=
  ∃ w rest t us, seen.reverse ++ cs = w ++ rest ∧ read w = some t ∧ ts = t :: us ∧ Lexed us rest

/- It is between quotes, and has seen some pieces and perhaps the backslash of another. -/
def InQuotes (seen : List Piece) (opened : List Char) (ts : List Token) (cs : List Char) : Prop :=
  ∃ ps inner rest us, cs = inner ++ '\x22' :: rest ∧ Piece.Spelt ps (opened ++ inner) ∧
    ts = .string (seen.reverse ++ ps) :: us ∧ Lexed us rest

/- What the text is that comes next, if the words are made of it from there. -/
def Pending : Scan → List Token → List Char → Prop
  | .between, ts, cs => Lexed ts cs
  | .word seen, ts, cs => InRun literal? seen ts cs
  | .number seen, ts, cs => InRun number? seen ts cs
  | .string seen, ts, cs => InQuotes seen [] ts cs
  | .escape seen, ts, cs => InQuotes seen ['\\'] ts cs
  | .hex seen owed value, ts, cs =>
      ∃ ds n rest, cs = ds ++ rest ∧ HexRun (owed - 1 + 1) value ds n ∧
        InQuotes (Piece.ofUnit n :: seen) [] ts rest

theorem runLexed {read : List Char → Option Token} {c : Char} {ts : List Token} {cs : List Char}
    (words : ∀ {w t}, read w = some t → Word t w) (h : InRun read [c] ts cs) :
    Lexed ts (c :: cs) := by
  obtain ⟨w, rest, t, us, split, reads, rfl, lexed⟩ := h
  have whole : c :: cs = w ++ rest := split
  rw [whole]
  exact lexedWord (words reads) lexed

theorem startTaken {c : Char} {ts us : List Token} {s : Scan} {cs : List Char}
    (step : start c = some (ts, s)) (h : Pending s us cs) : Lexed (ts ++ us) (c :: cs) := by
  unfold start at step
  split at step
  · rename_i space
    cases step
    exact lexedSpace space h
  · split at step
    · rename_i quote
      cases step
      cases eq_of_beq quote
      obtain ⟨ps, inner, rest, vs, rfl, spelt, rfl, lexed⟩ := h
      have word := lexedWord (.string spelt) lexed
      simpa [quoted] using word
    · split at step
      · cases step
        exact runLexed literalWord h
      · split at step
        · cases step
          exact runLexed numberWord h
        · obtain ⟨t, mark, whole⟩ := Option.map_eq_some_iff.mp step
          cases whole
          exact lexedWord (punctuationWord mark) h

theorem runMore {read : List Char → Option Token} {c : Char} {seen : List Char} {ts : List Token}
    {cs : List Char} (h : InRun read (c :: seen) ts cs) : InRun read seen ts (c :: cs) := by
  simpa [InRun] using h

theorem runEnds {read : List Char → Option Token} {c : Char} {seen : List Char}
    {ts us : List Token} {s : Scan} {cs : List Char}
    (step : (do
      let t ← read seen.reverse
      let (ts, s) ← start c
      some (t :: ts, s)) = some (ts, s))
    (h : Pending s us cs) : InRun read seen (ts ++ us) (c :: cs) := by
  obtain ⟨t, reads, step⟩ := Option.bind_eq_some_iff.mp step
  obtain ⟨⟨vs, s'⟩, starts, whole⟩ := Option.bind_eq_some_iff.mp step
  cases whole
  exact ⟨seen.reverse, c :: cs, t, vs ++ us, rfl, reads, rfl, startTaken starts h⟩

/- A piece is over, and those behind it are spelt from here. -/
theorem pieceTaken {p : Piece} {seen : List Piece} {opened w cs : List Char} {ts : List Token}
    (spells : ∀ {ps inner}, Piece.Spelt ps inner → Piece.Spelt (p :: ps) (opened ++ (w ++ inner)))
    (h : InQuotes (p :: seen) [] ts cs) : InQuotes seen opened ts (w ++ cs) := by
  obtain ⟨ps, inner, rest, us, rfl, spelt, rfl, lexed⟩ := h
  exact ⟨p :: ps, w ++ inner, rest, us, by simp, spells spelt, by simp, lexed⟩

theorem advanceTaken {s next : Scan} {c : Char} {ts us : List Token} {cs : List Char}
    (step : advance s c = some (ts, next)) (h : Pending next us cs) :
    Pending s (ts ++ us) (c :: cs) := by
  cases s with
  | between => exact startTaken step h
  | word seen =>
    simp only [advance] at step
    split at step
    · cases step
      exact runMore h
    · exact runEnds step h
  | number seen =>
    simp only [advance] at step
    split at step
    · cases step
      exact runMore h
    · exact runEnds step h
  | string seen =>
    simp only [advance] at step
    split at step
    · rename_i quote
      cases step
      cases eq_of_beq quote
      exact ⟨[], [], cs, us, rfl, .nil, by simp, h⟩
    · rename_i quote
      split at step
      · rename_i slash
        cases step
        cases eq_of_beq slash
        obtain ⟨ps, inner, rest, vs, rfl, spelt, rfl, lexed⟩ := h
        exact ⟨ps, '\\' :: inner, rest, vs, rfl, spelt, rfl, lexed⟩
      · rename_i slash
        split at step
        · cases step
        · rename_i visible
          cases step
          have plain : Plain c :=
            ⟨Nat.le_of_not_lt visible, by simpa using quote, by simpa using slash⟩
          exact pieceTaken (w := [c]) (fun spelt => .itself plain spelt) h
  | escape seen =>
    simp only [advance] at step
    split at step
    · rename_i unit
      cases step
      cases eq_of_beq unit
      obtain ⟨ds, n, rest, rfl, hex, h⟩ := h
      have spells {ps inner} (spelt : Piece.Spelt ps inner) :
          Piece.Spelt (Piece.ofUnit n :: ps) (['\\'] ++ ('u' :: ds ++ inner)) :=
        .unit (hexRunWhole hex) rfl spelt
      exact pieceTaken spells h
    · obtain ⟨e, escape, whole⟩ := Option.map_eq_some_iff.mp step
      cases whole
      exact pieceTaken (w := [c]) (fun spelt => .short (escapeTaken escape) spelt) h
  | hex seen owed value =>
    obtain ⟨d, digit, whole⟩ := Option.map_eq_some_iff.mp step
    split at whole
    · rename_i last
      cases whole
      refine ⟨[c], value * 16 + d, cs, rfl, ?_, h⟩
      rw [Nat.sub_eq_zero_of_le last]
      exact .cons (hexTaken digit) .nil
    · rename_i more
      cases whole
      obtain ⟨ds, n, rest, rfl, hex, h⟩ := h
      refine ⟨c :: ds, n, rest, rfl, .cons (hexTaken digit) ?_, h⟩
      rwa [Nat.sub_add_cancel (by omega)] at hex

theorem finishTaken {s : Scan} {ts : List Token} (h : finish s = some ts) : Pending s ts [] := by
  have run {read : List Char → Option Token} {seen : List Char}
      (last : (read seen.reverse).map ([·]) = some ts) : InRun read seen ts [] := by
    obtain ⟨t, reads, rfl⟩ := Option.map_eq_some_iff.mp last
    exact ⟨seen.reverse, [], t, [], rfl, reads, rfl, .nil spacesNone⟩
  cases s with
  | between =>
    cases h
    exact .nil spacesNone
  | word seen | number seen => exact run h
  | string | escape | hex => cases h

theorem scanTaken {s : Scan} {cs : List Char} {ts : List Token} (h : scanFrom s cs = some ts) :
    Pending s ts cs := by
  induction cs generalizing s ts with
  | nil => exact finishTaken h
  | cons c cs ih =>
    obtain ⟨⟨us, next⟩, step, rest⟩ := Option.bind_eq_some_iff.mp h
    obtain ⟨vs, scanned, whole⟩ := Option.bind_eq_some_iff.mp rest
    cases whole
    exact advanceTaken step (ih scanned)

end Token
end LintGate.Json
