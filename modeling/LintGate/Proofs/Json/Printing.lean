import LintGate.Json.Printer
import LintGate.Proofs.Json.Reading
/-! The printer keeps to the grammar, so what it prints is read back as the value that it was
given. That holds of every value whose numbers are numbers and whose strings are texts. -/
namespace LintGate.Json
open Grammar (Spaces Spells Phrase Spelling Content Key Hex4 HexDigit quoted)
open Grammar (spacesNone spacesOne spacesAppend)

/-! ### Quotes -/

theorem digitPrinted {n : Nat} (small : n < 16) : HexDigit n (Text.hexDigit n) := ⟨small, .inl rfl⟩

theorem controlPrinted {n : Nat} (small : n < 0x20) :
    Hex4 n ['0', '0', Text.hexDigit (n / 16), Text.hexDigit (n % 16)] := by
  have zero : HexDigit 0 '0' := digitPrinted (by omega)
  have high : HexDigit (n / 16) (Text.hexDigit (n / 16)) := digitPrinted (by omega)
  have low : HexDigit (n % 16) (Text.hexDigit (n % 16)) := digitPrinted (by omega)
  have whole : ((0 * 16 + 0) * 16 + n / 16) * 16 + n % 16 = n := by omega
  have digits := Hex4.digits zero zero high low
  rwa [whole] at digits

theorem escapeSpelling (c : Char) : Spelling c (escapeChar c) := by
  unfold escapeChar
  by_cases quote : c = '\x22'
  · subst c; exact .short (by simp [Grammar.shortEscapes])
  by_cases slash : c = '\\'
  · subst c; exact .short (by simp [Grammar.shortEscapes])
  by_cases backspace : c = '\x08'
  · subst c; exact .short (by simp [Grammar.shortEscapes])
  by_cases tab : c = '\t'
  · subst c; exact .short (by simp [Grammar.shortEscapes])
  by_cases newline : c = '\n'
  · subst c; exact .short (by simp [Grammar.shortEscapes])
  by_cases feed : c = '\x0c'
  · subst c; exact .short (by simp [Grammar.shortEscapes])
  by_cases carriage : c = '\r'
  · subst c; exact .short (by simp [Grammar.shortEscapes])
  simp only [quote, slash, backspace, tab, newline, feed, carriage, beq_iff_eq, if_false]
  by_cases control : c.toNat < 0x20
  · rw [if_pos control]
    exact .unit (controlPrinted control)
  · rw [if_neg control]
    exact .itself ⟨Nat.not_lt.mp control, quote, slash⟩

theorem contentPrinted (cs : List Char) : Content cs (cs.flatMap escapeChar) := by
  induction cs with
  | nil => exact .nil
  | cons c cs ih => exact .cons (escapeSpelling c) ih

theorem quoteShape (s : String) : (quote s).toList = quoted (s.toList.flatMap escapeChar) :=
  String.toList_ofList

/-! ### Numbers -/

theorem decimalFirst {n : Nat} (positive : 0 < n) :
    ∃ c cs, Nat.toDigits 10 n = c :: cs ∧ c ≠ '0' := by
  induction n using Nat.strongRecOn with
  | ind n ih =>
    by_cases small : n < 10
    · have first : ∀ d < 10, 0 < d → d.digitChar ≠ '0' := by decide
      exact ⟨_, [], Nat.toDigits_of_lt_base small, first n small positive⟩
    · obtain ⟨c, cs, digits, first⟩ := ih (n / 10) (by omega) (by omega)
      refine ⟨c, cs ++ [(n % 10).digitChar], ?_, first⟩
      rw [Nat.toDigits_of_base_le (by decide) (by omega), digits, List.cons_append]

theorem decimalWhole (n : Nat) : Grammar.Whole (Nat.toDigits 10 n) := by
  by_cases zero : n = 0
  · subst n; exact .zero
  · obtain ⟨c, cs, digits, first⟩ := decimalFirst (Nat.pos_of_ne_zero zero)
    have all : ∀ d ∈ c :: cs, d.isDigit = true := fun d member =>
      Nat.isDigit_of_mem_toDigits (by decide) (by decide) (digits ▸ member)
    rw [digits]
    exact .digits (all c (by simp)) first (fun d member => all d (by simp [member]))

theorem decimalPrinted (n : Nat) : Grammar.Number (Nat.toDigits 10 n) := by
  have whole := Grammar.Number.positive (decimalWhole n) .none .none
  simpa using whole

namespace Value

/- Strings that are texts, keys among them, and numbers in their own grammar. -/
inductive Lawful : Value → Prop where
  | null : Lawful .null
  | boolean {b} : Lawful (.boolean b)
  | number {s} (h : Grammar.Number s.toList) : Lawful (.number s)
  | text {s} : Lawful (.text s)
  | array {items} (values : ∀ v ∈ items, Lawful v) : Lawful (.array items)
  | object {members} (keys : ∀ m ∈ members, m.1 ≠ none) (values : ∀ m ∈ members, Lawful m.2) :
      Lawful (.object members)

theorem lawfulFields {fields : List (String × Value)} (values : ∀ f ∈ fields, Lawful f.2) :
    Lawful (.ofFields fields) := by
  refine .object ?_ ?_ <;> intro m member <;> obtain ⟨f, there, rfl⟩ := List.mem_map.mp member
  · simp
  · exact values f there

theorem lawfulNat (n : Nat) : Lawful (.ofNat n) := by
  refine .number ?_
  rw [Text.decimal, String.toList_ofList]
  exact decimalPrinted n

/-! ### Lines -/

theorem marginSpaces (depth : Nat) : Spaces (margin depth).toList := by
  intro c member
  rw [margin, String.toList_ofList] at member
  exact .inl (List.eq_of_mem_replicate member)

theorem newlineSpaces : Spaces ['\n'] := spacesOne (.inr (.inr (.inl rfl)))

/- Items and members are printed alike: a line each, with the commas at the ends of the lines. -/
theorem linesSpelt {α : Type} {phrase : List α → Phrase} {line : α → String} {xs : List α}
    (last : ∀ x ∈ xs, ∀ a b, Spaces a → Spaces b →
      Spells (phrase [x]) (a ++ ((line x).toList ++ b)))
    (more : ∀ x ∈ xs, ∀ a ys ds, Spaces a → Spells (phrase ys) ds →
      Spells (phrase (x :: ys)) (a ++ ((line x).toList ++ ',' :: ds)))
    (filled : xs ≠ []) {a b : List Char} (before : Spaces a) (after : Spaces b) :
    Spells (phrase xs) (a ++ ((String.intercalate ",\n" (xs.map line)).toList ++ b)) := by
  induction xs generalizing a with
  | nil => contradiction
  | cons x xs ih =>
    cases xs with
    | nil => simpa using last x (by simp) a b before after
    | cons y ys =>
      have tail := ih (fun z member => last z (by simp [member]))
        (fun z member => more z (by simp [member])) (by simp) newlineSpaces
      have whole := more x (by simp) a _ _ before tail
      have comma : ",\n".toList = [',', '\n'] := rfl
      rw [List.map_cons, List.map_cons, String.intercalate_cons_cons, ← List.map_cons]
      simpa only [String.toList_append, List.append_assoc, List.cons_append, List.nil_append,
        comma] using whole

theorem itemsPrinted (depth : Nat) (vs : List Value) :
    prettyItems depth vs = vs.map fun v => margin depth ++ prettyAt depth v := by
  induction vs with
  | nil => rfl
  | cons v vs ih => rw [prettyItems, ih, List.map_cons]

theorem membersPrinted (depth : Nat) (ms : List (Option String × Value)) :
    prettyMembers depth ms =
      ms.map fun m => margin depth ++ quoteKey m.1 ++ ": " ++ prettyAt depth m.2 := by
  induction ms with
  | nil => rfl
  | cons m ms ih => rw [prettyMembers, ih, List.map_cons]

theorem itemsSpelt {depth : Nat} {vs : List Value} (filled : vs ≠ [])
    (values : ∀ v ∈ vs, Spells (.value v) (prettyAt depth v).toList) {a b : List Char}
    (before : Spaces a) (after : Spaces b) :
    Spells (.items vs) (a ++ ((String.intercalate ",\n" (prettyItems depth vs)).toList ++ b)) := by
  rw [itemsPrinted]
  refine linesSpelt ?_ ?_ filled before after
  · intro v member a b before after
    have indented := spacesAppend before (marginSpaces depth)
    have item := Spells.lastItem (.spaced indented (values v member) after)
    simpa only [String.toList_append, List.append_assoc] using item
  · intro v member a vs ds before tail
    have indented := spacesAppend before (marginSpaces depth)
    have items := Spells.item (.spaced indented (values v member) spacesNone) tail
    simpa only [String.toList_append, List.append_assoc, List.append_nil] using items

/- A member with its margin, its key and the one space that the printer puts behind the colon. -/
theorem memberSpelt {depth : Nat} {k : Option String} {v : Value} (key : k ≠ none)
    (value : Spells (.value v) (prettyAt depth v).toList) {a b : List Char}
    (before : Spaces a) (after : Spaces b) :
    Spells (.member k v)
      (a ++ ((margin depth ++ quoteKey k ++ ": " ++ prettyAt depth v).toList ++ b)) := by
  obtain ⟨s, rfl⟩ := Option.ne_none_iff_exists'.mp key
  have space : Spaces [' '] := spacesOne (.inl rfl)
  have indented := spacesAppend before (marginSpaces depth)
  have named : Key (some s) (s.toList.flatMap escapeChar) := .text (contentPrinted s.toList)
  have whole := Spells.member indented named spacesNone (.spaced space value after)
  have colon : ": ".toList = [':', ' '] := rfl
  simpa only [quoteKey, quoteShape, String.toList_append, List.append_assoc, List.cons_append,
    List.nil_append, colon] using whole

theorem membersSpelt {depth : Nat} {ms : List (Option String × Value)} (filled : ms ≠ [])
    (keys : ∀ m ∈ ms, m.1 ≠ none)
    (values : ∀ m ∈ ms, Spells (.value m.2) (prettyAt depth m.2).toList) {a b : List Char}
    (before : Spaces a) (after : Spaces b) :
    Spells (.members ms)
      (a ++ ((String.intercalate ",\n" (prettyMembers depth ms)).toList ++ b)) := by
  rw [membersPrinted]
  refine linesSpelt ?_ ?_ filled before after
  · intro m member a b before after
    exact .lastMember (memberSpelt (keys m member) (values m member) before after)
  · intro m member a ms ds before tail
    have head := memberSpelt (keys m member) (values m member) before spacesNone
    rw [List.append_nil] at head
    rw [← List.append_assoc]
    exact .moreMembers head tail

/-! ### Values -/

theorem prettySpells {v : Value} (lawful : Lawful v) (depth : Nat) :
    Spells (.value v) (prettyAt depth v).toList := by
  have margins := spacesAppend newlineSpaces (marginSpaces depth)
  induction lawful generalizing depth with
  | null => rw [prettyAt]; exact .null
  | @boolean b =>
    rw [prettyAt]
    cases b with
    | false => exact .no
    | true => exact .yes
  | @number s h =>
    have number := Spells.number h
    rwa [String.ofList_toList] at number
  | @text s =>
    rw [prettyAt, quoteShape]
    exact .text (contentPrinted s.toList)
  | @array items values ih =>
    cases items with
    | nil => rw [prettyAt]; exact .emptyArray spacesNone
    | cons v vs =>
      have inside := itemsSpelt (List.cons_ne_nil v vs)
        (fun w member => ih w member (depth + 1) (spacesAppend newlineSpaces (marginSpaces _)))
        newlineSpaces margins
      have opening : "[\n".toList = ['[', '\n'] := rfl
      have newline : "\n".toList = ['\n'] := rfl
      have closing : "]".toList = [']'] := rfl
      simpa only [prettyAt, String.toList_append, List.append_assoc, List.cons_append,
        List.nil_append, opening, newline, closing] using Spells.array inside
  | @object ms keys values ih =>
    cases ms with
    | nil => rw [prettyAt]; exact .emptyObject spacesNone
    | cons m ms =>
      have inside := membersSpelt (List.cons_ne_nil m ms) keys
        (fun w member => ih w member (depth + 1) (spacesAppend newlineSpaces (marginSpaces _)))
        newlineSpaces margins
      have opening : "\x7b\n".toList = ['{', '\n'] := rfl
      have newline : "\n".toList = ['\n'] := rfl
      have closing : "\x7d".toList = ['}'] := rfl
      simpa only [prettyAt, String.toList_append, List.append_assoc, List.cons_append,
        List.nil_append, opening, newline, closing] using Spells.object inside

/- A text may end in a line break behind the value, as files do. -/
theorem readPretty {v : Value} (lawful : Lawful v) : read? (v.pretty ++ "\n") = some v := by
  have spelt := readSpelt (.spaced spacesNone (prettySpells lawful 0) newlineSpaces)
  have newline : "\n".toList = ['\n'] := rfl
  rwa [List.nil_append, ← newline, ← String.toList_append, String.ofList_toList] at spelt

end Value
end LintGate.Json
