import LintGate.Proofs.Json.Grammar
/-! What the scanner makes of the spaces, the punctuation, the literals and the numbers that the
grammar derives. A word that nothing in itself ends is scanned as itself where a character comes
next that could not continue it. -/
namespace LintGate.Json

/-! ### Numbers -/
namespace Number
open Grammar (Digits Whole Fraction Exponent)

def Stops (p : Char → Bool) (rest : List Char) : Prop := ∀ c ∈ rest.head?, p c = false

theorem runSplit {p : Char → Bool} {run rest : List Char} (all : ∀ c ∈ run, p c = true)
    (stop : Stops p rest) :
    (run ++ rest).takeWhile p = run ∧ (run ++ rest).dropWhile p = rest := by
  rw [List.takeWhile_append_of_pos all, List.dropWhile_append_of_pos all]
  cases rest with
  | nil => simp
  | cons c rest => simp [stop c rfl]

theorem exponentStops {cs} (h : Exponent cs) : Stops Char.isDigit cs := by
  intro c member
  cases h with
  | none => simp at member
  | digits mark => cases member; rcases mark with rfl | rfl <;> decide

theorem exponentValid {cs} (h : Exponent cs) : exponent cs = true := by
  cases h with
  | none => rfl
  | @digits e sign ds mark signed digits =>
    obtain ⟨filled, all⟩ := digits
    cases ds with
    | nil => exact absurd rfl filled
    | cons d ds =>
      have letter : (e == 'e' || e == 'E') = true := by rcases mark with rfl | rfl <;> decide
      have only : (d :: ds).all Char.isDigit = true := List.all_eq_true.mpr all
      rcases signed with rfl | rfl | rfl
      · have plus : d ≠ '+' := by intro same; subst d; exact absurd (all '+' (by simp)) (by decide)
        have minus : d ≠ '-' := by intro same; subst d; exact absurd (all '-' (by simp)) (by decide)
        simp [exponent, letter, plus, minus] at only ⊢
        exact only
      · simpa [exponent, letter] using only
      · simpa [exponent, letter] using only

theorem fractionStops {f e} (fraction : Fraction f) (exponent : Exponent e) :
    Stops Char.isDigit (f ++ e) := by
  cases fraction with
  | none => exact exponentStops exponent
  | digits => intro c member; cases member; decide

theorem fractionValid {f e} (part : Fraction f) (tail : Exponent e) :
    fraction (f ++ e) = true := by
  cases part with
  | none =>
    cases tail with
    | none => rfl
    | @digits c sign ds mark signed digits =>
      have point : c ≠ '.' := by intro same; subst c; simp at mark
      simpa [fraction, point] using exponentValid (.digits mark signed digits)
  | @digits ds digits =>
    obtain ⟨taken, left⟩ := runSplit digits.2 (exponentStops tail)
    simp [fraction, taken, left, digits.1, exponentValid tail]

theorem unsignedValid {w f e} (whole : Whole w) (part : Fraction f) (tail : Exponent e) :
    unsigned (w ++ (f ++ e)) = true := by
  have rest := fractionValid part tail
  cases whole with
  | zero => exact rest
  | @digits c cs first other digits =>
    obtain ⟨_, left⟩ := runSplit digits (fractionStops part tail)
    simp [unsigned, first, left, rest]

theorem grammarValid {cs} (h : Grammar.Number cs) : valid cs = true := by
  cases h with
  | @positive w f e whole part tail =>
    have rest := unsignedValid whole part tail
    cases whole with
    | zero => exact rest
    | @digits c ds first other digits =>
      have minus : c ≠ '-' := by intro same; subst c; exact absurd first (by decide)
      simpa [valid, minus] using rest
  | negative whole part tail => exact unsignedValid whole part tail

theorem digitMark {c : Char} (digit : c.isDigit = true) : mark c = true := by simp [mark, digit]

theorem wholeMarks {w} (h : Whole w) : ∀ c ∈ w, mark c = true := by
  cases h with
  | zero => exact List.forall_mem_singleton.mpr rfl
  | digits first other rest =>
    intro c member
    rcases List.mem_cons.mp member with rfl | inside
    · exact digitMark first
    · exact digitMark (rest c inside)

theorem fractionMarks {f} (h : Fraction f) : ∀ c ∈ f, mark c = true := by
  cases h with
  | none => simp
  | digits digits =>
    intro c member
    rcases List.mem_cons.mp member with rfl | inside
    · decide
    · exact digitMark (digits.2 c inside)

theorem exponentMarks {e} (h : Exponent e) : ∀ c ∈ e, mark c = true := by
  cases h with
  | none => simp
  | digits letter signed digits =>
    intro c member
    rcases List.mem_cons.mp member with rfl | inside
    · rcases letter with rfl | rfl <;> decide
    · rcases List.mem_append.mp inside with sign | digit
      · rcases signed with rfl | rfl | rfl <;> simp at sign <;> subst c <;> decide
      · exact digitMark (digits.2 c digit)

theorem grammarMarks {cs} (h : Grammar.Number cs) : ∀ c ∈ cs, mark c = true := by
  have parts : ∀ {w f e}, Whole w → Fraction f → Exponent e →
      ∀ c ∈ w ++ (f ++ e), mark c = true := by
    intro w f e whole part tail c member
    rcases List.mem_append.mp member with inside | member
    · exact wholeMarks whole c inside
    · rcases List.mem_append.mp member with inside | inside
      · exact fractionMarks part c inside
      · exact exponentMarks tail c inside
  cases h with
  | positive whole part tail => exact parts whole part tail
  | negative whole part tail =>
    intro c member
    rcases List.mem_cons.mp member with rfl | inside
    · decide
    · exact parts whole part tail c inside

theorem grammarBegins {cs} (h : Grammar.Number cs) :
    ∃ c rest, cs = c :: rest ∧ (c = '-' ∨ c.isDigit = true) := by
  cases h with
  | positive whole => cases whole with
    | zero => exact ⟨_, _, rfl, .inr (by decide)⟩
    | digits first => exact ⟨_, _, rfl, .inr first⟩
  | negative => exact ⟨_, _, rfl, .inl rfl⟩

end Number

/-! ### Words between others -/
namespace Token

/- Nothing comes next that could still belong to a literal or a number. -/
def Delimited (rest : List Char) : Prop :=
  ∀ c ∈ rest.head?, c.isLower = false ∧ Number.mark c = false

/- Wherever the characters stand before a delimiter they are scanned as the words. -/
def Scans (cs : List Char) (ts : List Token) : Prop :=
  ∀ rest, Delimited rest → scanFrom .between (cs ++ rest) = (scanFrom .between rest).map (ts ++ ·)

theorem scansNone : Scans [] [] := by
  intro rest _
  simp

theorem delimitedCons {c : Char} {cs : List Char} (lower : c.isLower = false)
    (mark : Number.mark c = false) : Delimited (c :: cs) := by
  intro d member
  cases member
  exact ⟨lower, mark⟩

theorem spaceDelimits {c : Char} (h : c = ' ' ∨ c = '\t' ∨ c = '\n' ∨ c = '\r') :
    isSpace c = true ∧ c.isLower = false ∧ Number.mark c = false := by
  rcases h with rfl | rfl | rfl | rfl <;> decide

theorem spacesDelimited {a rest} (spaces : Grammar.Spaces a) (h : Delimited rest) :
    Delimited (a ++ rest) := by
  cases a with
  | nil => exact h
  | cons c a =>
    have space := spaceDelimits (spaces c (by simp))
    exact delimitedCons space.2.1 space.2.2

/- Spaces and punctuation end themselves, so anything may follow them. -/
theorem scansIndented {a cs ts} (spaces : Grammar.Spaces a) (h : Scans cs ts) :
    Scans (a ++ cs) ts := by
  induction a with
  | nil => exact h
  | cons c a ih =>
    intro rest delimited
    have space := (spaceDelimits (spaces c (by simp))).1
    have tail := ih (fun d member => spaces d (by simp [member])) rest delimited
    simp only [List.cons_append, scanFrom, advance, start]
    simpa [space] using tail

theorem scansPunctuated {c : Char} {t : Token} {cs ts} (h : start c = some ([t], .between))
    (scans : Scans cs ts) : Scans (c :: cs) (t :: ts) := by
  intro rest delimited
  have tail := scans rest delimited
  simp only [List.cons_append, scanFrom, advance, h]
  cases after : scanFrom .between rest <;> simp [after, tail]

theorem scansAppend {cs ds ts us} (first : Scans cs ts) (second : Scans ds us)
    (apart : ∀ rest, Delimited rest → Delimited (ds ++ rest)) : Scans (cs ++ ds) (ts ++ us) := by
  intro rest delimited
  rw [List.append_assoc, first _ (apart rest delimited), second rest delimited, Option.map_map]
  congr 1
  funext vs
  simp

theorem scansSpaced {cs ts b} (h : Scans cs ts) (spaces : Grammar.Spaces b) :
    Scans (cs ++ b) ts := by
  have after : Scans b [] := by simpa using scansIndented spaces scansNone
  simpa using scansAppend h after (fun _ => spacesDelimited spaces)

/- A comma, a colon or a bracket ends whatever stands before it. -/
theorem scansSeparated {c : Char} {t : Token} {cs ds ts us} (first : Scans cs ts)
    (h : start c = some ([t], .between)) (lower : c.isLower = false) (mark : Number.mark c = false)
    (second : Scans ds us) : Scans (cs ++ c :: ds) (ts ++ t :: us) :=
  scansAppend first (scansPunctuated h second) (fun _ _ => delimitedCons lower mark)

/-! ### Literals and numbers -/

/- Both are runs of characters of one kind, and are read as a whole once another kind follows. -/
theorem runScanned {kind : List Char → Scan} {belongs : Char → Bool}
    {read : List Char → Option Token} {t : Token}
    (more : ∀ seen c, belongs c = true → advance (kind seen) c = some ([], kind (c :: seen)))
    (stops : ∀ seen c, belongs c = false → advance (kind seen) c = (do
      let t ← read seen.reverse
      let (ts, s) ← start c
      some (t :: ts, s)))
    (last : ∀ seen, finish (kind seen) = (read seen.reverse).map ([·]))
    {rest : List Char} (stop : Number.Stops belongs rest) (cs seen : List Char)
    (all : ∀ c ∈ cs, belongs c = true) (reads : read (seen.reverse ++ cs) = some t) :
    scanFrom (kind seen) (cs ++ rest) = (scanFrom .between rest).map ([t] ++ ·) := by
  induction cs generalizing seen with
  | nil =>
    rw [List.append_nil] at reads
    cases rest with
    | nil =>
      rw [List.nil_append, scanFrom, last, reads]
      rfl
    | cons c rest =>
      rw [List.nil_append, scanFrom, stops seen c (stop c rfl), reads, scanFrom, advance]
      cases start c with
      | none => rfl
      | some step => cases tail : scanFrom step.2 rest <;> simp [tail]
  | cons c cs ih =>
    have tail := ih (c :: seen) (fun d member => all d (by simp [member])) (by simpa using reads)
    simp only [List.cons_append, scanFrom, more seen c (all c (by simp))]
    simp [tail]

theorem scansLiteral {c : Char} {cs : List Char} {t : Token}
    (first : start c = some ([], .word [c])) (lower : ∀ d ∈ cs, d.isLower = true)
    (reads : literal? (c :: cs) = some t) : Scans (c :: cs) [t] := by
  intro rest delimited
  have run := @runScanned .word Char.isLower literal? t
    (by intro seen d h; simp [advance, h]) (by intro seen d h; simp [advance, h]) (fun _ => rfl)
    rest (fun d member => (delimited d member).1) cs [c] lower (by simpa using reads)
  simp only [List.cons_append, scanFrom, advance, first]
  simpa using run

theorem numberStarts {c : Char} (h : c = '-' ∨ c.isDigit = true) :
    start c = some ([], .number [c]) := by
  rcases h with rfl | digit
  · decide
  · have bounds := Char.isDigit_iff_toNat.mp digit
    have space : isSpace c = false := by
      have apart : ∀ d : Char, d.toNat < 48 → c ≠ d := by
        intro d small same
        subst d
        simp at bounds
        omega
      simp [isSpace, apart]
    have quote : c ≠ '\x22' := by intro same; subst c; exact absurd digit (by decide)
    have lower : c.isLower = false := by
      refine Bool.eq_false_iff.mpr ?_
      intro letter
      have low : 97 ≤ c.toNat :=
        UInt32.le_iff_toNat_le.mp (of_decide_eq_true (Bool.and_eq_true_iff.mp letter).1)
      simp at bounds
      omega
    simp [start, space, quote, lower, digit]

theorem scansNumber {cs} (h : Grammar.Number cs) : Scans cs [.number cs] := by
  intro rest delimited
  obtain ⟨c, ds, rfl, first⟩ := Number.grammarBegins h
  have valid : number? (c :: ds) = some (.number (c :: ds)) := by
    simp [number?, Number.grammarValid h]
  have run := @runScanned .number Number.mark number? (.number (c :: ds))
    (by intro seen d h; simp [advance, h]) (by intro seen d h; simp [advance, h]) (fun _ => rfl)
    rest (fun d member => (delimited d member).2) ds [c]
    (fun d member => Number.grammarMarks h d (by simp [member])) (by simpa using valid)
  simp only [List.cons_append, scanFrom, advance, numberStarts first]
  simpa using run

end Token
end LintGate.Json
