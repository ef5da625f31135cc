import Mathlib.Data.Bool.AllAny
import Mathlib.Data.List.Nodup
import LintGate.Proofs.Json.Grammar
import LintGate.Settings.File
/-! Settings as they are written down: what a file can declare, and which texts of either notation
declare it. The lines may stand in any order, and a character in a string has several spellings. -/
namespace LintGate

/-! ### Declarations -/
namespace Settings

/- A command is written as its program alone or as the list of its words. -/
inductive Command
  | program (name : String)
  | words (ws : List String)
  deriving DecidableEq, Repr

inductive Value
  | text (s : String)
  | truth (b : Bool)
  | words (ws : List String)
  deriving DecidableEq, Repr

def Command.argv : Command → List String
  | program name => [name]
  | words ws => ws

def Command.value : Command → Value
  | program name => .text name
  | words ws => .words ws

def truthWord (b : Bool) : String := if b then "true" else "false"

structure Declaration where
  format : Option String
  strict : Option Bool
  preset : Option String
  localConfig : Option Bool
  command : Option Command
  deriving DecidableEq, Repr

namespace Declaration

def settings (d : Declaration) : Settings :=
  ⟨d.format, d.strict, d.preset, d.localConfig, d.command.map Command.argv⟩

def values (d : Declaration) : List (String × Option Value) :=
  [("format", d.format.map .text), ("strict", d.strict.map .truth),
   ("preset", d.preset.map .text), ("localConfig", d.localConfig.map .truth),
   ("eslint", d.command.map Command.value)]

/- What is absent is not written at all. -/
def entries (d : Declaration) : List (String × Value) :=
  d.values.filterMap fun e => e.2.map (e.1, ·)

variable {d : Declaration} {es : List (String × Value)}

theorem valuesApart (d : Declaration) : (d.values.map Prod.fst).Nodup := by
  have keys : d.values.map Prod.fst = keys := rfl
  rw [keys]
  decide

theorem statedKeys (vs : List (String × Option Value)) :
    ((vs.filterMap fun e => e.2.map (e.1, ·)).map Prod.fst).Sublist (vs.map Prod.fst) := by
  induction vs with
  | nil => exact .slnil
  | cons e vs ih =>
    obtain ⟨key, value⟩ := e
    cases value with
    | none => exact ih.cons key
    | some v => exact ih.cons_cons key

theorem orderedApart (order : es.Perm d.entries) : (es.map Prod.fst).Nodup :=
  (order.map Prod.fst).nodup_iff.mpr ((statedKeys d.values).nodup (valuesApart d))

theorem orderedKeys (order : es.Perm d.entries) : ∀ e ∈ es, e.1 ∈ keys := by
  intro e member
  have stated := List.mem_map_of_mem (f := Prod.fst) (order.mem_iff.mp member)
  exact (statedKeys d.values).subset stated

theorem lookupMember {α : Type} {ps : List (String × α)} (apart : (ps.map Prod.fst).Nodup)
    {key : String} {v : α} (member : (key, v) ∈ ps) : ps.lookup key = some v := by
  obtain ⟨before, after, rfl⟩ := List.append_of_mem member
  refine List.lookup_eq_some_iff.mpr ⟨before, after, rfl, fun p earlier => ?_⟩
  rw [List.map_append, List.nodup_append] at apart
  have other := apart.2.2 p.1 (List.mem_map_of_mem (f := Prod.fst) earlier) key (by simp)
  simpa using other.symm

theorem lookupMapped {α β : Type} (f : α → β) (ps : List (String × α)) (key : String) :
    (ps.map fun p => (p.1, f p.2)).lookup key = (ps.lookup key).map f := by
  induction ps with
  | nil => rfl
  | cons p ps ih =>
    rw [List.map_cons, List.lookup_cons, List.lookup_cons, ih]
    cases key == p.1 <;> rfl

/- In whatever order the entries stand, a key leads to its value. -/
theorem orderedLookup (order : es.Perm d.entries) {key : String} {value : Option Value}
    (listed : (key, value) ∈ d.values) : es.lookup key = value := by
  cases value with
  | some v =>
    refine lookupMember (orderedApart order) (order.mem_iff.mpr ?_)
    exact List.mem_filterMap.mpr ⟨_, listed, rfl⟩
  | none =>
    refine List.lookup_eq_none_iff.mpr fun e member => ?_
    obtain ⟨⟨other, value⟩, otherListed, stated⟩ := List.mem_filterMap.mp (order.mem_iff.mp member)
    obtain ⟨v, present, rfl⟩ := Option.map_eq_some_iff.mp stated
    refine bne_iff_ne.mpr fun same => ?_
    have absent := lookupMember (valuesApart d) listed
    have found := lookupMember (valuesApart d) otherListed
    simp only at same present
    rw [same, found, present] at absent
    cases Option.some.inj absent

structure Lookups (d : Declaration) (es : List (String × Value)) : Prop where
  format : es.lookup "format" = d.format.map .text
  strict : es.lookup "strict" = d.strict.map .truth
  preset : es.lookup "preset" = d.preset.map .text
  localConfig : es.lookup "localConfig" = d.localConfig.map .truth
  command : es.lookup "eslint" = d.command.map Command.value

theorem orderedLookups (order : es.Perm d.entries) : Lookups d es where
  format := orderedLookup order (by simp [values])
  strict := orderedLookup order (by simp [values])
  preset := orderedLookup order (by simp [values])
  localConfig := orderedLookup order (by simp [values])
  command := orderedLookup order (by simp [values])

end Declaration
end Settings

/-! ### Texts -/
namespace Notation
open Settings (Value Declaration keys truthWord)
open Json.Grammar (HexDigit quoted)

def Printable (c : Char) : Prop := 0x20 ≤ c.toNat ∧ c.toNat ≤ 0x7E

instance (c : Char) : Decidable (Printable c) := by unfold Printable; infer_instance

theorem printableOther {c d : Char} (h : Printable c) (hidden : ¬ Printable d) : c ≠ d := by
  rintro rfl
  exact hidden h

def Spaces (cs : List Char) : Prop := ∀ c ∈ cs, c = ' '

theorem spacesCons {c : Char} {cs : List Char} : Spaces (c :: cs) ↔ c = ' ' ∧ Spaces cs :=
  List.forall_mem_cons

/- Where a word begins, a gap of spaces ends. -/
def Begins (c : Char) : Prop := Printable c ∧ c ≠ ' ' ∧ c ≠ '#'

instance (c : Char) : Decidable (Begins c) := by unfold Begins; infer_instance

/- The characters with an escape of two, and its second character. The first eight are known in
both notations. -/
def commonEscapes : List (Char × Char) :=
  [('\x08', 'b'), ('\t', 't'), ('\n', 'n'), ('\x0c', 'f'), ('\r', 'r'), ('\x1b', 'e'),
   ('\x22', '\x22'), ('\\', '\\')]

def escapes : Notation → List (Char × Char)
  | .toml => commonEscapes
  | .yaml => commonEscapes ++
      [('\x00', '0'), ('\x07', 'a'), ('\x0b', 'v'), (' ', ' '), ('/', '/'), ('\u0085', 'N'),
       ('\u00a0', '_'), ('\u2028', 'L'), ('\u2029', 'P')]

/- The letters of numeric escapes, and how many digits follow them. -/
def numericEscapes : List (Char × Nat) := [('x', 2), ('u', 4), ('U', 8)]

/- How a number goes on with its further digits. -/
def numberFrom (n : Nat) (digits : List Nat) : Nat := digits.foldl (fun n d => n * 16 + d) n

theorem numberNext (n d : Nat) (digits : List Nat) :
    numberFrom n (d :: digits) = numberFrom (n * 16 + d) digits := rfl

/- All ways to spell one character. What is not printable, and the quote and the backslash, can
only be escaped. -/
inductive Spelling (n : Notation) : Char → List Char → Prop where
  | itself {c} (printable : Printable c) (quote : c ≠ '\x22') (slash : c ≠ '\\') : Spelling n c [c]
  | short {c e} (listed : (c, e) ∈ n.escapes) : Spelling n c ['\\', e]
  | numeric {c letter digits ds} (listed : (letter, digits.length) ∈ numericEscapes)
      (spelt : List.Forall₂ HexDigit digits ds) (number : numberFrom 0 digits = c.toNat) :
      Spelling n c ('\\' :: letter :: ds)

inductive Content (n : Notation) : List Char → List Char → Prop where
  | nil : Content n [] []
  | cons {c s cs ds} (head : Spelling n c s) (tail : Content n cs ds) :
      Content n (c :: cs) (s ++ ds)

/- One or more strings with commas between them. -/
inductive Items (n : Notation) : List String → List Char → Prop where
  | last {a w cs b} (before : Spaces a) (word : Content n w.toList cs) (after : Spaces b) :
      Items n [w] (a ++ (quoted cs ++ b))
  | more {a w cs b ws ds} (before : Spaces a) (word : Content n w.toList cs) (after : Spaces b)
      (tail : Items n ws ds) : Items n (w :: ws) (a ++ (quoted cs ++ (b ++ ',' :: ds)))

inductive Written (n : Notation) : Value → List Char → Prop where
  | text {s cs} (content : Content n s.toList cs) : Written n (.text s) (quoted cs)
  | truth (b : Bool) : Written n (.truth b) (truthWord b).toList
  | noWords {a} (inside : Spaces a) : Written n (.words []) ('[' :: (a ++ [']']))
  | words {ws cs} (items : Items n ws cs) : Written n (.words ws) ('[' :: (cs ++ [']']))

/- What stands between a key and the space before its value. -/
def mark : Notation → List Char
  | .toml => " =".toList
  | .yaml => ":".toList

inductive Lines (n : Notation) : List (String × Value) → List Char → Prop where
  | nil : Lines n [] []
  | cons {key v a cs es ds} (gap : Spaces a) (value : Written n v cs) (tail : Lines n es ds) :
      Lines n ((key, v) :: es) (key.toList ++ (n.mark ++ ' ' :: (a ++ (cs ++ '\n' :: ds))))

/- The text has one line for each value that is there, and nothing else. -/
def Declares (n : Notation) (text : String) (d : Declaration) : Prop :=
  ∃ es, es.Perm d.entries ∧ Lines n es text.toList

/-! ### Characters of a text -/

theorem letterOther {c d : Char} (letter : c.isAlpha = true) (other : d.isAlpha = false) :
    c ≠ d := by
  rintro rfl
  rw [letter] at other
  contradiction

theorem letterPrintable {c : Char} (letter : c.isAlpha = true) : Printable c := by
  rcases Bool.or_eq_true_iff.mp letter with upper | lower
  · obtain ⟨low, high⟩ := of_decide_eq_true upper
    exact ⟨Nat.le_trans (by decide) (UInt32.le_iff_toNat_le.mp low),
      Nat.le_trans (UInt32.le_iff_toNat_le.mp high) (by decide)⟩
  · obtain ⟨low, high⟩ := Bool.and_eq_true_iff.mp lower
    exact ⟨Nat.le_trans (by decide) (UInt32.le_iff_toNat_le.mp (of_decide_eq_true low)),
      Nat.le_trans (UInt32.le_iff_toNat_le.mp (of_decide_eq_true high)) (by decide)⟩

theorem keyFilled : ∀ key ∈ keys, key.toList ≠ [] := by decide

theorem keyLetters (key : String) (known : key ∈ keys) : ∀ c ∈ key.toList, c.isAlpha = true := by
  have each : ∀ key ∈ keys, key.toList.all Char.isAlpha = true := by decide
  exact List.all_eq_true.mp (each key known)

theorem truthLetters (b : Bool) : ∀ c ∈ (truthWord b).toList, c.isAlpha = true := by
  cases b <;> exact List.all_eq_true.mp (by decide)

theorem spacesPrintable {a : List Char} (h : Spaces a) : ∀ c ∈ a, Printable c := by
  intro c member
  rw [h c member]
  decide

theorem digitPrintable {n : Nat} {c : Char} (h : HexDigit n c) : Printable c := by
  obtain ⟨small, rfl | rfl⟩ := h
  · revert n; decide
  · revert n; decide

theorem digitsPrintable {ns ds} (h : List.Forall₂ HexDigit ns ds) : ∀ c ∈ ds, Printable c := by
  induction h with
  | nil => simp
  | cons digit _ ih => exact List.forall_mem_cons.mpr ⟨digitPrintable digit, ih⟩

theorem escapesPrintable (n : Notation) : ∀ e ∈ n.escapes, Printable e.2 := by
  cases n <;> decide

theorem numericPrintable : ∀ e ∈ numericEscapes, Printable e.1 := by decide

variable {n : Notation}

theorem contentPrintable {s cs} (h : Content n s cs) : ∀ c ∈ cs, Printable c := by
  induction h with
  | nil => simp
  | cons head tail ih =>
    refine List.forall_mem_append.mpr ⟨?_, ih⟩
    have slash : Printable '\\' := by decide
    cases head with
    | itself printable => simpa using printable
    | short listed => simpa [slash] using escapesPrintable n _ listed
    | numeric listed spelt =>
      simpa [slash, numericPrintable _ listed] using digitsPrintable spelt

theorem quotedPrintable {s cs} (h : Content n s cs) : ∀ c ∈ quoted cs, Printable c := by
  have quote : Printable '\x22' := by decide
  simpa [quoted, quote, or_imp, forall_and] using contentPrintable h

theorem itemsPrintable {ws cs} (h : Items n ws cs) : ∀ c ∈ cs, Printable c := by
  have comma : Printable ',' := by decide
  induction h with
  | last before word after =>
    simp only [List.forall_mem_append]
    exact ⟨spacesPrintable before, quotedPrintable word, spacesPrintable after⟩
  | more before word after tail ih =>
    simp only [List.forall_mem_append, List.forall_mem_cons]
    exact ⟨spacesPrintable before, quotedPrintable word, spacesPrintable after, comma, ih⟩

theorem writtenPrintable {v cs} (h : Written n v cs) : ∀ c ∈ cs, Printable c := by
  have opens : Printable '[' := by decide
  have closes : Printable ']' ∧ ∀ c ∈ [], Printable c := ⟨by decide, List.forall_mem_nil _⟩
  cases h with
  | text content => exact quotedPrintable content
  | truth b => exact fun c member => letterPrintable (truthLetters b c member)
  | noWords inside =>
    simp only [List.forall_mem_append, List.forall_mem_cons]
    exact ⟨opens, spacesPrintable inside, closes⟩
  | words items =>
    simp only [List.forall_mem_append, List.forall_mem_cons]
    exact ⟨opens, itemsPrintable items, closes⟩

theorem markPrintable (n : Notation) : ∀ c ∈ n.mark, Printable c := by
  cases n <;> exact List.all_iff_forall_prop.mp (by decide)

theorem linesPrintable {es cs} (h : Lines n es cs) (known : ∀ e ∈ es, e.1 ∈ keys) :
    ∀ c ∈ cs, Printable c ∨ c = '\n' := by
  induction h with
  | nil => simp
  | @cons key v a cs es ds gap value tail ih =>
    obtain ⟨first, rest⟩ := List.forall_mem_cons.mp known
    simp only [List.forall_mem_append, List.forall_mem_cons]
    exact ⟨fun c member => .inl (letterPrintable (keyLetters key first c member)),
      fun c member => .inl (markPrintable n c member), .inl (by decide),
      fun c member => .inl (spacesPrintable gap c member),
      fun c member => .inl (writtenPrintable value c member), .inr trivial, ih rest⟩

/-! ### Words of a text -/

theorem keyBegins {key : String} (known : key ∈ keys) :
    ∃ c cs, key.toList = c :: cs ∧ Begins c ∧ c.isAlpha = true := by
  obtain ⟨c, cs, shape⟩ := List.exists_cons_of_ne_nil (keyFilled key known)
  have member : c ∈ key.toList := by rw [shape]; exact List.mem_cons_self
  have letter := keyLetters key known c member
  exact ⟨c, cs, shape,
    ⟨letterPrintable letter, letterOther letter rfl, letterOther letter rfl⟩, letter⟩

theorem quotedAppend (cs rest : List Char) :
    quoted cs ++ rest = '\x22' :: (cs ++ '\x22' :: rest) := by
  simp [quoted]

theorem writtenBegins {v cs} (h : Written n v cs) : ∃ c ds, cs = c :: ds ∧ Begins c := by
  cases h with
  | text => exact ⟨'\x22', _, rfl, by decide⟩
  | truth b => cases b <;> exact ⟨_, _, rfl, by decide⟩
  | noWords => exact ⟨'[', _, rfl, by decide⟩
  | words => exact ⟨'[', _, rfl, by decide⟩

end Notation
end LintGate
