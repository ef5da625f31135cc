import LintGate.Json.Value
/-! The grammar of JSON, apart from any reader: which stretches of text spell which value.
Spaces may stand around every word, and a character inside quotes has several spellings.
The order and the repetition of keys are kept: they are for the reader of a record to judge. -/
namespace LintGate.Json.Grammar

/-! ### Spaces and numbers -/

def Spaces (cs : List Char) : Prop := ∀ c ∈ cs, c = ' ' ∨ c = '\t' ∨ c = '\n' ∨ c = '\r'

theorem spacesNone : Spaces [] := by intro c member; contradiction

theorem spacesOne {c : Char} (h : c = ' ' ∨ c = '\t' ∨ c = '\n' ∨ c = '\r') : Spaces [c] := by
  intro d member
  obtain rfl := List.mem_singleton.mp member
  exact h

theorem spacesAppend {a b : List Char} (before : Spaces a) (after : Spaces b) :
    Spaces (a ++ b) := by
  intro c member
  rcases List.mem_append.mp member with h | h
  · exact before c h
  · exact after c h

def Digits (cs : List Char) : Prop := cs ≠ [] ∧ ∀ c ∈ cs, c.isDigit = true

/- Zero stands alone before the point; every other whole part begins with another digit. -/
inductive Whole : List Char → Prop where
  | zero : Whole ['0']
  | digits {c cs} (first : c.isDigit = true) (other : c ≠ '0')
      (rest : ∀ d ∈ cs, d.isDigit = true) : Whole (c :: cs)

inductive Fraction : List Char → Prop where
  | none : Fraction []
  | digits {cs} (h : Digits cs) : Fraction ('.' :: cs)

inductive Exponent : List Char → Prop where
  | none : Exponent []
  | digits {e sign cs} (mark : e = 'e' ∨ e = 'E') (signed : sign = [] ∨ sign = ['+'] ∨ sign = ['-'])
      (h : Digits cs) : Exponent (e :: (sign ++ cs))

inductive Number : List Char → Prop where
  | positive {w f e} (whole : Whole w) (fraction : Fraction f) (exponent : Exponent e) :
      Number (w ++ (f ++ e))
  | negative {w f e} (whole : Whole w) (fraction : Fraction f) (exponent : Exponent e) :
      Number ('-' :: (w ++ (f ++ e)))

/-! ### Inside quotes -/

/- A digit stands for its value in either case. -/
def HexDigit (n : Nat) (c : Char) : Prop :=
  n < 16 ∧ (c = Text.hexDigit n ∨ c = (Text.hexDigit n).toUpper)

inductive Hex4 : Nat → List Char → Prop where
  | digits {a b c d x y z w} (first : HexDigit a x) (second : HexDigit b y) (third : HexDigit c z)
      (fourth : HexDigit d w) : Hex4 (((a * 16 + b) * 16 + c) * 16 + d) [x, y, z, w]

/- The characters with an escape of two, and its second character. -/
def shortEscapes : List (Char × Char) :=
  [('\x22', '\x22'), ('\\', '\\'), ('/', '/'), ('\x08', 'b'), ('\x0c', 'f'), ('\n', 'n'),
   ('\r', 'r'), ('\t', 't')]

def Plain (c : Char) : Prop := 0x20 ≤ c.toNat ∧ c ≠ '\x22' ∧ c ≠ '\\'

/-! The two halves of a character above U+FFFF. -/

def highHalf (c : Char) : Nat := 0xD800 + (c.toNat - 0x10000) / 0x400

def lowHalf (c : Char) : Nat := 0xDC00 + (c.toNat - 0x10000) % 0x400

/- All ways to spell one character. Above U+FFFF an escape takes both halves of a pair. -/
inductive Spelling : Char → List Char → Prop where
  | itself {c} (plain : Plain c) : Spelling c [c]
  | short {c e} (listed : (c, e) ∈ shortEscapes) : Spelling c ['\\', e]
  | unit {c ds} (hex : Hex4 c.toNat ds) : Spelling c ('\\' :: 'u' :: ds)
  | pair {c hs ls} (above : 0x10000 ≤ c.toNat) (high : Hex4 (highHalf c) hs)
      (low : Hex4 (lowHalf c) ls) : Spelling c ('\\' :: 'u' :: (hs ++ '\\' :: 'u' :: ls))

inductive Content : List Char → List Char → Prop where
  | nil : Content [] []
  | cons {c s cs ds} (head : Spelling c s) (tail : Content cs ds) : Content (c :: cs) (s ++ ds)

/- What may stand between quotes at all: an escape may name half of a pair alone. -/
inductive Literal : List Char → Prop where
  | nil : Literal []
  | itself {c cs} (plain : Plain c) (tail : Literal cs) : Literal (c :: cs)
  | short {c e cs} (listed : (c, e) ∈ shortEscapes) (tail : Literal cs) : Literal ('\\' :: e :: cs)
  | unit {n ds cs} (hex : Hex4 n ds) (tail : Literal cs) : Literal ('\\' :: 'u' :: (ds ++ cs))

/- A literal that is well-formed and yet no text. -/
def NoText (cs : List Char) : Prop := Literal cs ∧ ∀ s, ¬ Content s cs

inductive Key : Option String → List Char → Prop where
  | text {s cs} (h : Content s.toList cs) : Key (some s) cs
  | illFormed {cs} (h : NoText cs) : Key none cs

def quoted (cs : List Char) : List Char := '\x22' :: (cs ++ ['\x22'])

/-! ### Values -/

/- What a stretch of text can stand for. Items and members are one or more, with their commas;
a spaced value may have spaces at its ends. -/
inductive Phrase where
  | value (v : Value)
  | spaced (v : Value)
  | items (vs : List Value)
  | member (k : Option String) (v : Value)
  | members (ms : List (Option String × Value))

inductive Spells : Phrase → List Char → Prop where
  | null : Spells (.value .null) ['n', 'u', 'l', 'l']
  | yes : Spells (.value (.boolean true)) ['t', 'r', 'u', 'e']
  | no : Spells (.value (.boolean false)) ['f', 'a', 'l', 's', 'e']
  | number {cs} (h : Number cs) : Spells (.value (.number (String.ofList cs))) cs
  | text {s cs} (h : Content s.toList cs) : Spells (.value (.text s)) (quoted cs)
  | illFormed {cs} (h : NoText cs) : Spells (.value .illFormed) (quoted cs)
  | emptyArray {a} (inside : Spaces a) : Spells (.value (.array [])) ('[' :: (a ++ [']']))
  | array {vs cs} (h : Spells (.items vs) cs) : Spells (.value (.array vs)) ('[' :: (cs ++ [']']))
  | emptyObject {a} (inside : Spaces a) : Spells (.value (.object [])) ('{' :: (a ++ ['}']))
  | object {ms cs} (h : Spells (.members ms) cs) :
      Spells (.value (.object ms)) ('{' :: (cs ++ ['}']))
  | spaced {a v cs b} (before : Spaces a) (h : Spells (.value v) cs) (after : Spaces b) :
      Spells (.spaced v) (a ++ (cs ++ b))
  | lastItem {v cs} (h : Spells (.spaced v) cs) : Spells (.items [v]) cs
  | item {v cs vs ds} (head : Spells (.spaced v) cs) (tail : Spells (.items vs) ds) :
      Spells (.items (v :: vs)) (cs ++ ',' :: ds)
  | member {a k ks b v cs} (before : Spaces a) (key : Key k ks) (after : Spaces b)
      (h : Spells (.spaced v) cs) : Spells (.member k v) (a ++ (quoted ks ++ (b ++ ':' :: cs)))
  | lastMember {k v cs} (h : Spells (.member k v) cs) : Spells (.members [(k, v)]) cs
  | moreMembers {k v cs ms ds} (head : Spells (.member k v) cs) (tail : Spells (.members ms) ds) :
      Spells (.members ((k, v) :: ms)) (cs ++ ',' :: ds)

theorem spellsBare {v : Value} {cs : List Char} (h : Spells (.value v) cs) :
    Spells (.spaced v) cs := by
  have whole := Spells.spaced spacesNone h spacesNone
  rwa [List.nil_append, List.append_nil] at whole

theorem arrayBracketed {vs cs} (h : Spells (.value (.array vs)) cs) :
    ∃ inside, cs = '[' :: (inside ++ [']']) := by
  cases h with
  | emptyArray => exact ⟨_, rfl⟩
  | array => exact ⟨_, rfl⟩

theorem objectBraced {ms cs} (h : Spells (.value (.object ms)) cs) :
    ∃ inside, cs = '{' :: (inside ++ ['}']) := by
  cases h with
  | emptyObject => exact ⟨_, rfl⟩
  | object => exact ⟨_, rfl⟩

end LintGate.Json.Grammar
