import LintGate.Proofs.Json.Quoted
import LintGate.Proofs.Settings.Declaration
import LintGate.Settings.Yaml
/-! The words of a declaration in YAML. A line begins with a word that might turn out to be a key,
and that it is one shows at the colon behind it. The value ends before the next line begins. -/
namespace LintGate.Yaml
open Settings (Value truthWord)
open Notation (Printable Spaces Begins Spelling Content Items Written Lines numberFrom letterOther
  printableOther keyBegins quotedAppend)
open Json.Grammar (HexDigit quoted)

/-! ### Characters -/

theorem printableAllowed {c : Char} (h : Printable c) : allowed c = true := by
  obtain ⟨low, high⟩ := h
  simp [allowed, low, high]

theorem printableInLine {c : Char} (h : Printable c) : isBreak c = false := by
  have line := printableOther h (d := '\n') (by decide)
  have lines := printableOther h (d := '\u2028') (by decide)
  have paragraphs := printableOther h (d := '\u2029') (by decide)
  simp [isBreak, line, lines, paragraphs]

theorem breaksKept {cs : List Char} (turn : '\r' ∉ cs) (next : '\u0085' ∉ cs) :
    foldBreaks cs = cs := by
  induction cs with
  | nil => rfl
  | cons c cs ih =>
    obtain ⟨first, turn⟩ := not_or.mp (fun h => turn (List.mem_cons.mpr h))
    obtain ⟨other, next⟩ := not_or.mp (fun h => next (List.mem_cons.mpr h))
    have plain : ¬ (c = '\r' ∨ c = '\u0085') := by
      rintro (rfl | rfl)
      · exact first rfl
      · exact other rfl
    rw [foldBreaks, if_neg plain, ih turn next]
    rintro _ rfl
    exact absurd rfl first

theorem streamKept {cs : List Char} (h : ∀ c ∈ cs, Printable c ∨ c = '\n') :
    stream? cs = some cs := by
  have all : cs.all allowed = true := by
    refine List.all_eq_true.mpr fun c member => ?_
    rcases h c member with printable | rfl
    · exact printableAllowed printable
    · rfl
  have without : ∀ c, ¬ Printable c → c ≠ '\n' → c ∉ cs := by
    intro c hidden line member
    rcases h c member with printable | same
    · exact hidden printable
    · exact line same
  rw [stream?, if_pos all, breaksKept (without '\r' (by decide) (by decide))
    (without '\u0085' (by decide) (by decide))]

/- Within a line a mark goes on by one column a character, and by four octets at most. -/
theorem markSkipped (m : Mark) (cs : List Char) :
    (m.skip cs).line = m.line ∧ (m.skip cs).column = m.column + cs.length ∧
      (m.skip cs).offset ≤ m.offset + 4 * cs.length := by
  induction cs generalizing m with
  | nil => exact ⟨rfl, rfl, Nat.le_refl _⟩
  | cons c cs ih =>
    obtain ⟨line, column, offset⟩ := ih (m.next c)
    have wide := c.utf8Size_le_four
    have first : (m.next c).column = m.column + 1 ∧ (m.next c).offset = m.offset + c.utf8Size :=
      ⟨rfl, rfl⟩
    rw [Mark.skip, List.foldl_cons]
    refine ⟨line, column.trans ?_, Nat.le_trans offset ?_⟩
    · rw [first.1, List.length_cons]
      omega
    · rw [first.2, List.length_cons]
      omega

/-! ### Strings -/
namespace Quoted

/- A gap in which no line has ended. -/
def gap (spaces : List Char) : Gap := ⟨spaces, false, none, []⟩

theorem commonRead : ∀ e ∈ Notation.escapes .yaml,
    isBreak e.2 = false ∧ simpleEscape? e.2 = some e.1 := by
  decide

theorem numericRead : ∀ e ∈ Notation.numericEscapes,
    isBreak e.1 = false ∧ simpleEscape? e.1 = none ∧ hexEscape? e.1 = some e.2 ∧ 0 < e.2 := by
  decide

variable {m : Mark} {text : List Char} {g : Gap}

theorem hexRead {digits ds} (spelt : List.Forall₂ HexDigit digits ds) {n : Nat} {c : Char}
    (number : numberFrom n digits = c.toNat) (filled : 0 < digits.length) (rest : List Char) :
    doubleFrom (.hex digits.length n) text g m (ds ++ rest) =
      doubleFrom .text (text ++ [c]) .empty (m.skip ds) rest := by
  induction spelt generalizing n m g with
  | nil => contradiction
  | @cons d x digits ds digit spelt ih =>
    have read := Json.Token.eitherCaseRead digit
    rw [Notation.numberNext] at number
    rw [List.cons_append, doubleFrom, read]
    cases digits with
    | nil =>
      cases spelt
      have named : n * 16 + d = c.toNat := number
      simp [named, Text.charNumbered, Mark.skip]
    | cons e digits => simpa [Mark.skip] using ih (m := m.next x) number (Nat.succ_pos _)

/- White space waits in the gap until it shows what comes behind it. -/
theorem spellingRead {c s} (h : Spelling .yaml c s) (inside : 0 < m.column) (spaces rest) :
    ∃ text' spaces', text' ++ spaces' = text ++ spaces ++ [c] ∧
      doubleFrom .text text (gap spaces) m (s ++ rest) =
        doubleFrom .text text' (gap spaces') (m.skip s) rest := by
  have started : (m.column == 0) = false := beq_eq_false_iff_ne.mpr (Nat.pos_iff_ne_zero.mp inside)
  have said : (gap spaces).text = spaces := rfl
  cases h with
  | itself printable quote slash =>
    have line := printableInLine printable
    by_cases space : c = ' '
    · subst space
      refine ⟨text, spaces ++ [' '], by simp, ?_⟩
      rw [List.singleton_append, doubleFrom]
      simp [started, isSpace, Gap.push, gap, Mark.past, Mark.skip, isBreak]
    · have tab := printableOther printable (d := '\t') (by decide)
      refine ⟨text ++ spaces ++ [c], [], by simp, ?_⟩
      rw [List.singleton_append, doubleFrom]
      simp [started, quote, slash, isSpace, space, tab, line, said, Mark.skip]
      rfl
  | @short e listed =>
    obtain ⟨line, read⟩ := commonRead _ listed
    simp only at line read
    refine ⟨text ++ spaces ++ [c], [], by simp, ?_⟩
    simp only [List.cons_append, doubleFrom]
    simp [started, line, read, said, Mark.skip]
    rfl
  | @numeric letter digits ds listed spelt number =>
    obtain ⟨line, other, read, filled⟩ := numericRead _ listed
    simp only at line other read filled
    refine ⟨text ++ spaces ++ [c], [], by simp, ?_⟩
    have digitsRead : doubleFrom (.hex digits.length 0) (text ++ spaces) .empty
        ((m.next '\\').next letter) (ds ++ rest) = _ := hexRead spelt number filled rest
    simp only [List.cons_append, doubleFrom]
    simp [started, line, other, read, said, digitsRead, Mark.skip]
    rfl

theorem contentRead {s cs} (h : Content .yaml s cs) (inside : 0 < m.column) (spaces rest) :
    doubleFrom .text text (gap spaces) m (cs ++ '\x22' :: rest) =
      some ⟨text ++ spaces ++ s, (m.skip cs).next '\x22', rest, false⟩ := by
  induction h generalizing m text spaces with
  | nil => simp [doubleFrom, gap, Gap.text, Mark.skip]
  | @cons c s cs ds head tail ih =>
    obtain ⟨text', spaces', joined, read⟩ := spellingRead head inside spaces (ds ++ '\x22' :: rest)
    have on : 0 < (m.skip s).column := by
      rw [(markSkipped m s).2.1]
      omega
    rw [List.append_assoc, read, ih on, joined]
    simp [Mark.skip]

theorem quotedRead {s cs} (h : Content .yaml s cs) (inside : 0 < m.column) (rest) :
    Quoted.read false m (cs ++ '\x22' :: rest) =
      some ⟨s, (m.skip cs).next '\x22', rest, false⟩ := by
  show doubleFrom .text [] (gap []) m _ = some ⟨[] ++ [] ++ s, _, rest, false⟩
  exact contentRead h inside [] rest

end Quoted

/-! ### Words without quotes -/
namespace Plain

variable {least : Nat} {first : Bool} {m : Mark} {text : List Char}

theorem letterInLine {c : Char} (letter : c.isAlpha = true) :
    isBreak c = false ∧ isSpace c = false ∧ ∀ cs, atDocumentMark (c :: cs) = false := by
  have line := letterOther letter (d := '\n') rfl
  have lines := letterOther letter (d := '\u2028') rfl
  have paragraphs := letterOther letter (d := '\u2029') rfl
  have space := letterOther letter (d := ' ') rfl
  have tab := letterOther letter (d := '\t') rfl
  have dash := letterOther letter (d := '-') rfl
  have dot := letterOther letter (d := '.') rfl
  refine ⟨by simp [isBreak, line, lines, paragraphs], by simp [isSpace, space, tab], fun cs => ?_⟩
  unfold atDocumentMark
  split
  · rename_i same
    exact absurd (List.cons.inj same).1 dash
  · rename_i same
    exact absurd (List.cons.inj same).1 dot
  · rfl

theorem letterRead {c : Char} (letter : c.isAlpha = true) (rest : List Char) :
    readFrom false least first text .empty m (c :: rest) =
      readFrom false least false (text ++ [c]) .empty (m.next c) rest := by
  obtain ⟨line, space, mark⟩ := letterInLine letter
  have comment := letterOther letter (d := '#') rfl
  have colon := letterOther letter (d := ':') rfl
  rw [readFrom]
  simp [line, space, mark, comment, colon, ends, Gap.isEmpty, Gap.empty, Gap.text]

theorem lettersRead {w : List Char} (letters : ∀ c ∈ w, c.isAlpha = true) (rest : List Char) :
    readFrom false least false text .empty m (w ++ rest) =
      readFrom false least false (text ++ w) .empty (m.skip w) rest := by
  induction w generalizing text m with
  | nil => simp [Mark.skip]
  | cons c w ih =>
    obtain ⟨letter, letters⟩ := List.forall_mem_cons.mp letters
    rw [List.cons_append, letterRead letter, ih letters]
    simp [Mark.skip]

theorem wordRead {w : List Char} (filled : w ≠ []) (letters : ∀ c ∈ w, c.isAlpha = true)
    (rest : List Char) : Plain.read false least m (w ++ rest) =
      readFrom false least false w .empty (m.skip w) rest := by
  cases w with
  | nil => contradiction
  | cons c w =>
    obtain ⟨letter, letters⟩ := List.forall_mem_cons.mp letters
    rw [Plain.read, List.cons_append, letterRead letter, lettersRead letters]
    rfl

/- A colon and a space end a key. -/
theorem keyRead {w : List Char} (filled : w ≠ []) (letters : ∀ c ∈ w, c.isAlpha = true)
    (rest : List Char) : Plain.read false least m (w ++ ':' :: ' ' :: rest) =
      some ⟨w, m.skip w, ':' :: ' ' :: rest, false⟩ := by
  rw [wordRead filled letters, readFrom]
  simp [isBreak, isSpace, ends, wordEnds, Gap.isEmpty, Gap.empty]

/- What stands here begins a line, or there is nothing more. -/
def LineBegins (rest : List Char) : Prop := ∀ c ∈ rest.head?, Begins c

/- A line that begins in the first column ends the scalar. -/
theorem lineRead {w rest : List Char} (filled : w ≠ []) (letters : ∀ c ∈ w, c.isAlpha = true)
    (next : LineBegins rest) : Plain.read false 1 m (w ++ '\n' :: rest) =
      some ⟨w, (m.skip w).newLine, rest, true⟩ := by
  rw [wordRead filled letters, readFrom]
  cases rest with
  | nil => simp [isBreak, readFrom, Gap.push, Gap.empty]
  | cons c rest =>
    obtain ⟨printable, space, _⟩ := next c rfl
    have line := printableInLine printable
    have tab := printableOther printable (d := '\t') (by decide)
    have here : isBreak '\n' = true := rfl
    simp only [here, if_true]
    rw [readFrom]
    simp [line, isSpace, space, tab, Gap.isEmpty, Gap.push, Gap.empty, Mark.newLine, here]

end Plain

/-! ### Steps of the scan -/
namespace Scan
open Plain (LineBegins)

theorem spacePassed {a : List Char} (spaces : Spaces a) {c : Char} (begins : Begins c)
    (flow allowed : Bool) (m : Mark) (cs : List Char) :
    spaceFrom flow allowed false m (a ++ c :: cs) = (allowed, m.skip a, c :: cs) := by
  induction a generalizing m with
  | nil =>
    obtain ⟨printable, space, comment⟩ := begins
    have line := printableInLine printable
    have tab := printableOther printable (d := '\t') (by decide)
    have mark := printableOther printable (d := byteOrderMark) (by decide)
    rw [List.nil_append, spaceFrom]
    simp [line, space, comment, tab, mark, Mark.skip]
  | cons d a ih =>
    obtain ⟨rfl, tail⟩ := Notation.spacesCons.mp spaces
    rw [List.cons_append, spaceFrom]
    simpa [isBreak, Mark.skip] using ih tail (m.next ' ')

theorem lineKept (allowed : Bool) (m : Mark) {rest : List Char} (next : LineBegins rest) :
    spaceFrom false allowed false m rest = (allowed, m, rest) := by
  cases rest with
  | nil => rfl
  | cons c rest => exact spacePassed (a := []) (by simp [Spaces]) (next c rfl) ..

theorem lineEntered (allowed : Bool) (m : Mark) {rest : List Char} (next : LineBegins rest) :
    spaceFrom false allowed false m ('\n' :: rest) = (true, m.newLine, rest) := by
  have line : isBreak '\n' = true := rfl
  rw [spaceFrom, if_pos line]
  simpa using lineKept true m.newLine next

/- The scan goes on to these words however much fuel is left, so long as it is enough. -/
def Scans (s : Scan) (ts : List Token) : Prop :=
  ∀ fuel, s.rest.length < fuel → run fuel s = some ts

def Leads (s u : Scan) : Prop := ∀ ts, Scans u ts → Scans s ts

theorem leadsAppend {s u v : Scan} (first : Leads s u) (second : Leads u v) : Leads s v :=
  fun ts scans => first ts (second ts scans)

variable {s t u : Scan} {ts : List Token} {m : Mark} {c : Char} {cs rest : List Char}

/- One word, in front of which nothing has to be closed. -/
theorem wordLeads (clean : s.toWord.dropStale = some t) (begins : t.rest = c :: cs)
    (flat : t.unroll (t.mark.column + 1) = t) (word : t.word c cs = some u)
    (shorter : u.rest.length < s.rest.length) : Leads s u := by
  intro ts scans fuel enough
  obtain ⟨f, rfl⟩ : ∃ f, fuel = f + 1 := ⟨fuel - 1, by omega⟩
  rw [run, clean]
  simp only [Option.bind_eq_bind, Option.bind_some, begins, flat, word]
  exact scans f (by omega)

/-! ### The beginning of a line -/

def atLine (ts : List Token) (m : Mark) (rest : List Char) (indents : List Nat) : Scan :=
  ⟨ts, m, rest, 0, indents, true, [none]⟩

def atValue (ts : List Token) (m : Mark) (rest : List Char) : Scan :=
  ⟨ts, m, rest, 0, [0], false, [none]⟩

/- The scan has got to a line of a block that is not indented, or its first line comes next. -/
structure Entered (s : Scan) (ts : List Token) (indents : List Nat) (rest : List Char) : Prop where
  block : indents = [] ∨ indents = [0]
  clean : ∃ m, m.column = 0 ∧ s.toWord = atLine ts m rest indents
  less : rest.length ≤ s.rest.length

theorem blockFlat {indents : List Nat} (block : indents = [] ∨ indents = [0]) (ts m rest allowed ks)
    (column : Nat) : unroll ⟨ts, m, rest, 0, indents, allowed, ks⟩ (column + 1) =
      ⟨ts, m, rest, 0, indents, allowed, ks⟩ := by
  rcases block with rfl | rfl <;> simp [unroll, inFlow]

theorem letterWord (letter : c.isAlpha = true) (s : Scan) (cs : List Char) :
    s.word c cs = s.plainScalar := by
  have other (d : Char) (h : d.isAlpha = false) : (c == d) = false :=
    beq_eq_false_iff_ne.mpr (letterOther letter h)
  obtain ⟨line, space, _⟩ := Plain.letterInLine letter
  have plain : isIndicator c = false := by
    have none : "-?:,[]\x7b\x7d#&*!|>\x27\x22%@\x60".toList.all (!·.isAlpha) = true := by decide
    refine Bool.eq_false_iff.mpr fun found => ?_
    have apart := List.all_eq_true.mp none c (List.contains_iff_mem.mp found)
    rw [letter] at apart
    contradiction
  have starts : startsPlain s.inFlow c cs = true := by simp [startsPlain, space, line, plain]
  simp [word, starts, other '%' rfl, other '-' rfl, other '.' rfl, other '[' rfl, other ']' rfl,
    other '\x7b' rfl, other '\x7d' rfl, other ',' rfl, other '?' rfl, other ':' rfl, other '*' rfl,
    other '&' rfl, other '!' rfl, other '|' rfl, other '>' rfl, other '\x27' rfl, other '\x22' rfl]

/- The key is a scalar at first, and its place is kept. -/
def afterKey (ts : List Token) (m : Mark) (rest : List Char) (indents : List Nat) (key : String)
    (required : Bool) : Scan :=
  ⟨ts ++ [.scalar .plain key], m.skip key.toList, rest, 0, indents, false,
    [some ⟨ts.length, required, m⟩]⟩

theorem keyScanned {key : String} (known : key ∈ Settings.keys) (ts m rest indents) :
    ∃ required, plainScalar (atLine ts m (key.toList ++ ':' :: ' ' :: rest) indents) =
      some (afterKey ts m (':' :: ' ' :: rest) indents key required) := by
  have read (least : Nat) : Plain.read false least m _ = _ :=
    Plain.keyRead (Notation.keyFilled key known) (Notation.keyLetters key known) rest
  refine ⟨decide (indents.head? = some m.column), ?_⟩
  simp [plainScalar, atLine, saveKey, dropKey, key?, setKey, inFlow, read, take, emit, afterKey]
  rfl

theorem keyFresh {key : String} (known : key ∈ Settings.keys) (ts m rest indents required) :
    (afterKey ts m (':' :: rest) indents key required).toWord.dropStale =
      some (afterKey ts m (':' :: rest) indents key required) := by
  have short : ∀ key ∈ Settings.keys, key.toList.length ≤ 11 := by decide
  obtain ⟨line, _, offset⟩ := markSkipped m key.toList
  have size := short key known
  have near : ¬ m.offset + 1024 < (m.skip key.toList).offset := by omega
  have fresh : KeyPlace.stale ⟨ts.length, required, m⟩ (m.skip key.toList) = false := by
    simp [KeyPlace.stale, line, near]
  have passed : spaceFrom false false false (m.skip key.toList) (':' :: rest) =
      (false, m.skip key.toList, ':' :: rest) :=
    spacePassed (a := []) (by simp [Spaces]) (by decide) ..
  simp [toWord, afterKey, inFlow, passed, dropStale, fresh]

theorem colonWord (s : Scan) (cs : List Char) : s.word ':' (' ' :: cs) = s.valueMark := by
  simp [word, wordEnds, isSpace]

def opening (indents : List Nat) : List Token := if indents.isEmpty then [.blockMapping] else []

/- The colon tells that the key is one, and the first key opens the block. -/
theorem colonScanned {indents : List Nat} (block : indents = [] ∨ indents = [0])
    (start : m.column = 0) (ts rest key required) :
    valueMark (afterKey ts m (':' :: ' ' :: rest) indents key required) =
      some (atValue (ts ++ (opening indents ++ [.key, .scalar .plain key, .value]))
        ((m.skip key.toList).next ':') (' ' :: rest)) := by
  rcases block with rfl | rfl <;>
    simp [valueMark, afterKey, key?, insert, roll, inFlow, setKey, allowKey, emit, skip, atValue,
      opening, start, Mark.skip]

theorem keyLeads {indents : List Nat} {key : String} (known : key ∈ Settings.keys)
    (entered : Entered s ts indents (key.toList ++ ':' :: ' ' :: rest)) :
    ∃ m, Leads s (atValue (ts ++ (opening indents ++ [.key, .scalar .plain key, .value])) m
      (' ' :: rest)) := by
  obtain ⟨block, ⟨m, start, clean⟩, less⟩ := entered
  obtain ⟨c, cs, shape, _, letter⟩ := keyBegins known
  obtain ⟨required, scanned⟩ := keyScanned known ts m rest indents
  have named : Leads s (afterKey ts m (':' :: ' ' :: rest) indents key required) := by
    have begins : (atLine ts m (key.toList ++ ':' :: ' ' :: rest) indents).rest =
        c :: (cs ++ ':' :: ' ' :: rest) := by simp [atLine, shape]
    refine wordLeads ?_ begins (blockFlat block ..) ?_ ?_
    · rw [clean]
      simp [dropStale, atLine]
    · rw [letterWord letter, scanned]
    · refine Nat.lt_of_lt_of_le ?_ less
      simp only [afterKey, shape, List.length_append, List.length_cons]
      omega
  have marked : Leads (afterKey ts m (':' :: ' ' :: rest) indents key required)
      (atValue (ts ++ (opening indents ++ [.key, .scalar .plain key, .value]))
        ((m.skip key.toList).next ':') (' ' :: rest)) := by
    refine wordLeads (keyFresh known ..) rfl (blockFlat block ..) ?_ ?_
    · rw [colonWord, colonScanned block start]
    · simp [afterKey, atValue]
  exact ⟨_, leadsAppend named marked⟩

/-! ### Values -/

theorem valueClean {a : List Char} (spaces : Spaces a) (begins : Begins c) (ts m cs) :
    (atValue ts m (a ++ c :: cs)).toWord.dropStale = some (atValue ts (m.skip a) (c :: cs)) := by
  simp [toWord, atValue, inFlow, spacePassed spaces begins, dropStale]

/- Once nothing but the end of its line is left of a value, the next line can be entered. -/
theorem valueEntered (next : LineBegins rest) (ts m) :
    Entered (atValue ts m ('\n' :: rest)) ts [0] rest where
  block := .inr rfl
  clean := ⟨m.newLine, rfl, by simp [toWord, atValue, inFlow, lineEntered, next, atLine]⟩
  less := by simp [atValue]

theorem lineStarts (next : LineBegins rest) {indents : List Nat}
    (block : indents = [] ∨ indents = [0]) (start : m.column = 0) (ts) :
    Entered (atLine ts m rest indents) ts indents rest where
  block := block
  clean := ⟨m, start, by simp [toWord, atLine, inFlow, lineKept, next]⟩
  less := Nat.le_refl _

theorem quoteWord (s : Scan) (cs : List Char) : s.word '\x22' cs = s.quotedScalar false := by
  simp [word]

theorem truthScanned (b : Bool) (next : LineBegins rest) (ts) :
    plainScalar (atValue ts m ((truthWord b).toList ++ '\n' :: rest)) =
      some (atLine (ts ++ [.scalar .plain (truthWord b)]) (m.skip (truthWord b).toList).newLine rest
        [0]) := by
  have filled : (truthWord b).toList ≠ [] := by cases b <;> decide
  have read := Plain.lineRead (m := m) filled (Notation.truthLetters b) next
  simp [plainScalar, atValue, saveKey, inFlow, read, take, emit, atLine]

theorem truthLeads {a : List Char} (gap : Spaces a) (b : Bool) (next : LineBegins rest) (ts m) :
    ∃ s, Leads (atValue ts m (a ++ ((truthWord b).toList ++ '\n' :: rest))) s ∧
      Entered s (ts ++ [.scalar .plain (truthWord b)]) [0] rest := by
  obtain ⟨c, cs, shape, begins, letter⟩ : ∃ c cs, (truthWord b).toList = c :: cs ∧ Begins c ∧
      c.isAlpha = true := by
    cases b <;> exact ⟨_, _, rfl, by decide, by decide⟩
  have scanned := truthScanned (m := m.skip a) b next ts
  rw [shape] at scanned ⊢
  refine ⟨_, wordLeads (valueClean gap begins ..) rfl (blockFlat (.inr rfl) ..)
    (by rw [letterWord letter]; exact scanned) ?_, lineStarts next (.inr rfl) rfl _⟩
  simp [atValue, atLine]
  omega

theorem quotedScanned {cs : List Char} {text : String} (content : Content .yaml text.toList cs)
    (saved : s.saveKey = some t) (begins : t.rest = '\x22' :: (cs ++ '\x22' :: rest)) :
    s.quotedScalar false = some ({ t with
      mark := ((t.mark.next '\x22').skip cs).next '\x22', rest, keyAllowed := false }.emit
        (.scalar .quoted text)) := by
  have on : 0 < (t.mark.next '\x22').column := Nat.succ_pos _
  have read := Quoted.quotedRead content on rest
  have passed : (t.skip 1).mark = t.mark.next '\x22' ∧ (t.skip 1).rest = cs ++ '\x22' :: rest := by
    rw [skip, begins]
    exact ⟨rfl, rfl⟩
  rw [quotedScalar, saved]
  simp only [Option.bind_eq_bind, Option.bind_some, passed.1, passed.2, read, take,
    String.ofList_toList]

theorem textLeads {a cs : List Char} {text : String} (gap : Spaces a)
    (content : Content .yaml text.toList cs) (ts m rest) :
    ∃ m', Leads (atValue ts m (a ++ (quoted cs ++ '\n' :: rest)))
      (atValue (ts ++ [.scalar .quoted text]) m' ('\n' :: rest)) := by
  have scanned := quotedScanned (s := atValue ts (m.skip a) (quoted cs ++ '\n' :: rest)) content rfl
    (quotedAppend cs ('\n' :: rest))
  rw [quotedAppend] at scanned ⊢
  refine ⟨_, wordLeads (valueClean gap (by decide) ..) rfl (blockFlat (.inr rfl) ..)
    (by rw [quoteWord, scanned]; rfl) ?_⟩
  simp [atValue]
  omega

/-! ### Lists -/

/- In a list a key may begin at most at one place, and nowhere has it to. -/
def inList (ts : List Token) (m : Mark) (rest : List Char) (allowed : Bool)
    (place : Option KeyPlace) : Scan :=
  ⟨ts, m, rest, 1, [0], allowed, [place, none]⟩

def Listing (s : Scan) (ts : List Token) (rest : List Char) : Prop :=
  ∃ m allowed place, place.any KeyPlace.required = false ∧ s = inList ts m rest allowed place

theorem listingClean {a : List Char} (listing : Listing s ts (a ++ c :: cs)) (spaces : Spaces a)
    (begins : Begins c) : ∃ t, s.toWord.dropStale = some t ∧ Listing t ts (c :: cs) := by
  obtain ⟨m, allowed, place, free, rfl⟩ := listing
  have passed := spacePassed spaces begins true allowed m cs
  cases place with
  | none =>
    exact ⟨inList ts (m.skip a) (c :: cs) allowed none,
      by simp [toWord, inList, inFlow, passed, dropStale], _, _, none, rfl, rfl⟩
  | some k =>
    have optional : k.required = false := free
    cases stale : k.stale (m.skip a) with
    | true =>
      exact ⟨inList ts (m.skip a) (c :: cs) allowed none,
        by simp [toWord, inList, inFlow, passed, dropStale, stale, optional], _, _, none, rfl, rfl⟩
    | false =>
      exact ⟨inList ts (m.skip a) (c :: cs) allowed (some k),
        by simp [toWord, inList, inFlow, passed, dropStale, stale], _, _, some k, free, rfl⟩

/- A word of a list that leads to `u`, where what is left is shorter. -/
theorem listingLeads {a : List Char} (listing : Listing s ts (a ++ c :: cs)) (spaces : Spaces a)
    (begins : Begins c) {P : Scan → Prop}
    (word : ∀ t, Listing t ts (c :: cs) →
      ∃ u, t.word c cs = some u ∧ u.rest.length ≤ cs.length ∧ P u) :
    ∃ u, Leads s u ∧ P u := by
  obtain ⟨t, clean, inside⟩ := listingClean listing spaces begins
  obtain ⟨u, scanned, shorter, holds⟩ := word t inside
  obtain ⟨m, allowed, place, _, rfl⟩ := inside
  obtain ⟨_, _, _, _, rfl⟩ := listing
  refine ⟨u, wordLeads clean rfl (by simp [unroll, inList, inFlow]) scanned ?_, holds⟩
  simp [inList]
  omega

theorem openLeads {a : List Char} (gap : Spaces a) (ts m rest) :
    ∃ s, Leads (atValue ts m (a ++ '[' :: rest)) s ∧ Listing s (ts ++ [.flowSequence]) rest := by
  refine ⟨inList (ts ++ [.flowSequence]) ((m.skip a).next '[') rest true none,
    wordLeads (valueClean gap (by decide) ..) rfl (blockFlat (.inr rfl) ..) ?_ ?_,
    _, _, none, rfl, rfl⟩
  · simp [word, openFlow, atValue, saveKey, emit, skip, inList]
    rfl
  · simp [inList, atValue]
    omega

theorem listingDropped (listing : Listing s ts rest) :
    ∃ m allowed, s.dropKey = some (inList ts m rest allowed none) := by
  obtain ⟨m, allowed, place, free, rfl⟩ := listing
  exact ⟨m, allowed, by simp [dropKey, inList, key?, setKey, free]⟩

theorem listingSaved (listing : Listing s ts rest) :
    ∃ t, s.saveKey = some t ∧ Listing t ts rest := by
  obtain ⟨m, allowed, place, free, rfl⟩ := listing
  cases allowed with
  | false => exact ⟨_, rfl, m, false, place, free, rfl⟩
  | true =>
    exact ⟨inList ts m rest true (some ⟨ts.length, false, m⟩),
      by simp [saveKey, inList, inFlow, dropKey, key?, setKey, free], m, true, _, rfl, rfl⟩

theorem itemLeads {a cs : List Char} {text : String} (before : Spaces a)
    (content : Content .yaml text.toList cs) (listing : Listing s ts (a ++ (quoted cs ++ rest))) :
    ∃ u, Leads s u ∧ Listing u (ts ++ [.scalar .quoted text]) rest := by
  rw [quotedAppend] at listing
  refine listingLeads listing before (by decide) fun t inside => ?_
  obtain ⟨u, saved, m, allowed, place, free, rfl⟩ := listingSaved inside
  exact ⟨_, (quoteWord t _).trans (quotedScanned content saved rfl), by simp [emit]; omega,
    _, false, place, free, rfl⟩

theorem commaLeads {b : List Char} (after : Spaces b) (listing : Listing s ts (b ++ ',' :: rest)) :
    ∃ u, Leads s u ∧ Listing u (ts ++ [.flowEntry]) rest := by
  refine listingLeads listing after (by decide) fun t inside => ?_
  obtain ⟨m, allowed, dropped⟩ := listingDropped inside
  refine ⟨inList (ts ++ [.flowEntry]) (m.next ',') rest true none, ?_, by simp [inList],
    _, true, none, rfl, rfl⟩
  have entry : t.word ',' rest = t.flowEntry := by simp [word]
  rw [entry, flowEntry, dropped]
  rfl

theorem closeLeads {b : List Char} (after : Spaces b) (listing : Listing s ts (b ++ ']' :: rest)) :
    ∃ u, Leads s u ∧ ∃ m, u = atValue (ts ++ [.flowSequenceEnd]) m rest := by
  refine listingLeads listing after (by decide) fun t inside => ?_
  obtain ⟨m, allowed, dropped⟩ := listingDropped inside
  refine ⟨atValue (ts ++ [.flowSequenceEnd]) (m.next ']') rest, ?_, by simp [atValue], _, rfl⟩
  have close : t.word ']' rest = t.closeFlow .flowSequenceEnd := by simp [word]
  rw [close, closeFlow, dropped]
  rfl

/-! ### Lines -/

def itemTokens (first : Bool) : List String → List Token
  | [] => []
  | w :: ws => (if first then [] else [.flowEntry]) ++ .scalar .quoted w :: itemTokens false ws

def valueTokens : Value → List Token
  | .text s => [.scalar .quoted s]
  | .truth b => [.scalar .plain (truthWord b)]
  | .words ws => .flowSequence :: (itemTokens true ws ++ [.flowSequenceEnd])

def lineTokens (e : String × Value) : List Token :=
  .key :: .scalar .plain e.1 :: .value :: valueTokens e.2

theorem itemsLead {ws : List String} (items : Items .yaml ws cs)
    (listing : Listing s ts (cs ++ ']' :: rest)) :
    ∃ m, Leads s (atValue (ts ++ (itemTokens true ws ++ [.flowSequenceEnd])) m rest) := by
  induction items generalizing s ts with
  | last before word after =>
    rw [List.append_assoc, List.append_assoc] at listing
    obtain ⟨u, first, listing⟩ := itemLeads before word listing
    obtain ⟨_, last, m, rfl⟩ := closeLeads after listing
    exact ⟨m, by simpa [itemTokens] using leadsAppend first last⟩
  | @more a w cs b ws ds before word after tail ih =>
    rw [List.append_assoc, List.append_assoc, List.append_assoc] at listing
    obtain ⟨u, first, listing⟩ := itemLeads before word listing
    obtain ⟨v, second, listing⟩ := commaLeads after listing
    obtain ⟨m, last⟩ := ih listing
    cases tail with
    | last => exact ⟨m, by simpa [itemTokens] using leadsAppend first (leadsAppend second last)⟩
    | more => exact ⟨m, by simpa [itemTokens] using leadsAppend first (leadsAppend second last)⟩

theorem bracketed (cs rest : List Char) :
    '[' :: (cs ++ [']']) ++ rest = '[' :: (cs ++ ']' :: rest) := by
  simp

theorem valueLeads {a : List Char} {v : Value} (gap : Spaces a) (value : Written .yaml v cs)
    (next : LineBegins rest) (ts m) :
    ∃ u, Leads (atValue ts m (a ++ (cs ++ '\n' :: rest))) u ∧
      Entered u (ts ++ valueTokens v) [0] rest := by
  cases value with
  | text content =>
    obtain ⟨m', leads⟩ := textLeads gap content ts m rest
    exact ⟨_, leads, valueEntered next _ m'⟩
  | truth b => exact truthLeads gap b next ts m
  | noWords inside =>
    rw [bracketed]
    obtain ⟨s, opens, listing⟩ := openLeads gap ts m _
    obtain ⟨_, closes, m', rfl⟩ := closeLeads inside listing
    have entered := valueEntered next (ts ++ [.flowSequence] ++ [.flowSequenceEnd]) m'
    exact ⟨_, leadsAppend opens closes, by simpa [valueTokens, itemTokens] using entered⟩
  | @words ws cs items =>
    rw [bracketed]
    obtain ⟨s, opens, listing⟩ := openLeads gap ts m _
    obtain ⟨m', lists⟩ := itemsLead items listing
    have entered := valueEntered next
      (ts ++ [.flowSequence] ++ (itemTokens true ws ++ [.flowSequenceEnd])) m'
    exact ⟨_, leadsAppend opens lists, by simpa [valueTokens] using entered⟩

theorem lineLeads {indents : List Nat} {key : String} {v : Value} {a : List Char}
    (known : key ∈ Settings.keys) (gap : Spaces a) (value : Written .yaml v cs)
    (next : LineBegins rest)
    (entered : Entered s ts indents
      (key.toList ++ (Notation.yaml.mark ++ ' ' :: (a ++ (cs ++ '\n' :: rest))))) :
    ∃ u, Leads s u ∧ Entered u (ts ++ (opening indents ++ lineTokens (key, v))) [0] rest := by
  have mark : Notation.yaml.mark = [':'] := rfl
  have spaces : Spaces (' ' :: a) := Notation.spacesCons.mpr ⟨rfl, gap⟩
  rw [mark] at entered
  obtain ⟨m, named⟩ := keyLeads known entered
  obtain ⟨u, valued, entered⟩ := valueLeads spaces value next _ m
  exact ⟨u, leadsAppend named valued, by simpa [lineTokens] using entered⟩

theorem finishScans {indents : List Nat} (entered : Entered s ts indents []) :
    Scans s (ts ++ indents.map fun _ => .blockEnd) := by
  obtain ⟨block, ⟨m, _, clean⟩, _⟩ := entered
  intro fuel enough
  obtain ⟨f, rfl⟩ : ∃ f, fuel = f + 1 := ⟨fuel - 1, by omega⟩
  rw [run, clean]
  rcases block with rfl | rfl <;>
    simp [dropStale, atLine, finish, unroll, inFlow, dropKey, key?, setKey]

theorem linesBegin {es} (h : Lines .yaml es cs) (known : ∀ e ∈ es, e.1 ∈ Settings.keys) :
    LineBegins cs := by
  cases h with
  | nil => intro c member; contradiction
  | @cons key =>
    obtain ⟨c, letters, shape, begins, _⟩ := keyBegins (known _ List.mem_cons_self)
    intro d member
    rw [shape] at member
    cases member
    exact begins

theorem linesScanned {es} (h : Lines .yaml es cs) (known : ∀ e ∈ es, e.1 ∈ Settings.keys)
    (entered : Entered s ts [0] cs) : Scans s (ts ++ (es.flatMap lineTokens ++ [.blockEnd])) := by
  induction h generalizing s ts with
  | nil => exact finishScans entered
  | cons gap value tail ih =>
    obtain ⟨first, others⟩ := List.forall_mem_cons.mp known
    obtain ⟨u, leads, entered⟩ := lineLeads first gap value (linesBegin tail others) entered
    exact leads _ (by simpa [opening] using ih others entered)

def textTokens (es : List (String × Value)) : List Token :=
  if es.isEmpty then [] else .blockMapping :: (es.flatMap lineTokens ++ [.blockEnd])

theorem textScanned {es} {text : String} (h : Lines .yaml es text.toList)
    (known : ∀ e ∈ es, e.1 ∈ Settings.keys) : tokens? text = some (textTokens es) := by
  have entered : Entered (start text.toList) [] [] text.toList :=
    lineStarts (linesBegin h known) (.inl rfl) rfl []
  have scans : Scans (start text.toList) (textTokens es) := by
    generalize text.toList = cs at *
    cases h with
    | nil => exact finishScans entered
    | cons gap value tail =>
      obtain ⟨first, others⟩ := List.forall_mem_cons.mp known
      obtain ⟨u, leads, entered⟩ := lineLeads first gap value (linesBegin tail others) entered
      exact leads _ (by simpa [opening, textTokens] using linesScanned tail others entered)
  rw [tokens?, streamKept (Notation.linesPrintable h known)]
  exact scans _ (Nat.lt_succ_self _)

end Scan
end LintGate.Yaml
