import LintGate.Proofs.Json.Quoted
import LintGate.Proofs.Settings.Declaration
import LintGate.Proofs.Stages
import LintGate.Settings.Toml
/-! What is read from a declaration in TOML: the strings character by character, the values, and
the entries of all lines, which nothing may contradict. -/
namespace LintGate.Toml
open Settings (Value keys truthWord)
open Notation (Printable Spaces Begins Spelling Content Items Written Lines numberFrom letterOther
  printableOther keyBegins quotedAppend)
open Json.Grammar (HexDigit quoted)

/-! ### Strings -/

def short : Delimiter := ⟨'\x22', false⟩

theorem shortGoesOn {c : Char} (other : c ≠ '\x22') (cs : List Char) :
    short.close? (c :: cs) = none := by
  simp [Delimiter.close?, short, other]

theorem shortCloses (cs : List Char) : short.close? ('\x22' :: cs) = some ([], cs) := by
  simp [Delimiter.close?, short]

theorem printableText {c : Char} (h : Printable c) : isText c = true := by
  obtain ⟨low, high⟩ := h
  have other : c.toNat ≠ 0x7F := by omega
  simp [isText, low, other]

theorem commonRead : ∀ e ∈ Notation.escapes .toml, simpleEscape? e.2 = some e.1 := by decide

theorem numericRead : ∀ e ∈ Notation.numericEscapes,
    simpleEscape? e.1 = none ∧ hexEscape? e.1 = some e.2 ∧ 0 < e.2 := by
  decide

/- The digits that are owed, one after the other. -/
theorem hexRead {digits ds} (spelt : List.Forall₂ HexDigit digits ds) {n : Nat} {c : Char}
    (number : numberFrom n digits = c.toNat) (filled : 0 < digits.length) (rest : List Char) :
    stringFrom short (.hex digits.length n) (ds ++ rest) =
      (stringFrom short .text rest).map fun (text, rest) => (c :: text, rest) := by
  induction spelt generalizing n with
  | nil => contradiction
  | @cons d x digits ds digit spelt ih =>
    have read := Json.Token.eitherCaseRead digit
    rw [Notation.numberNext] at number
    rw [List.cons_append, stringFrom, read]
    cases digits with
    | nil =>
      cases spelt
      have named : n * 16 + d = c.toNat := number
      simp [named, Text.charNumbered]
    | cons e digits => simpa using ih number (Nat.succ_pos _)

theorem spellingRead {c s} (h : Spelling .toml c s) (rest : List Char) :
    stringFrom short .text (s ++ rest) =
      (stringFrom short .text rest).map fun (text, rest) => (c :: text, rest) := by
  have escapes : short.escapes = true := rfl
  have goesOn := shortGoesOn (c := '\\') (by decide)
  cases h with
  | itself printable quote slash =>
    rw [List.singleton_append, stringFrom, shortGoesOn quote]
    simp [slash, printableText printable]
  | @short e listed =>
    have read := commonRead _ listed
    simp only at read
    simp only [List.cons_append, stringFrom, goesOn, escapes, read]
    simp
  | @numeric letter digits ds listed spelt number =>
    obtain ⟨other, read, filled⟩ := numericRead _ listed
    simp only at other read filled
    have digitsRead := hexRead spelt number filled rest
    simp only [List.cons_append, stringFrom, goesOn, escapes, other, read]
    simpa using digitsRead

theorem contentRead {s cs} (h : Content .toml s cs) (rest : List Char) :
    stringFrom short .text (cs ++ '\x22' :: rest) = some (s, rest) := by
  induction h with
  | nil => rw [List.nil_append, stringFrom, shortCloses]
  | cons head tail ih => rw [List.append_assoc, spellingRead head, ih]; rfl

/- Two quotes are an empty string unless a third one follows. -/
theorem stringRead {s cs} (h : Content .toml s cs) {rest : List Char}
    (ended : rest.head? ≠ some '\x22') : string? (quoted cs ++ rest) = some (s, rest) := by
  have single : ∀ ds, cs ++ '\x22' :: rest ≠ '\x22' :: '\x22' :: ds := by
    intro ds same
    cases h with
    | nil =>
      rw [List.nil_append, List.cons.injEq] at same
      exact ended (by rw [same.2]; rfl)
    | cons head tail =>
      cases head with
      | itself _ quote => simp [quote] at same
      | short => simp at same
      | numeric => simp at same
  rw [quotedAppend]
  unfold string?
  split
  · rename_i same
    exact absurd (List.cons.inj same).2 (single _)
  · rename_i same
    simp at same
  · rw [shortString?]
    exact contentRead h rest

/-! ### Values -/

def item : Value → Item
  | .text s => .text s
  | .truth b => .boolean b
  | .words ws => .array (ws.map .text)

theorem spacesPassed {a : List Char} (spaces : Spaces a) {c : Char} (space : isSpace c = false)
    (cs : List Char) : dropSpace (a ++ c :: cs) = c :: cs := by
  have all : ∀ d ∈ a, isSpace d = true := by
    intro d member
    rw [spaces d member]
    rfl
  rw [dropSpace, List.dropWhile_append_of_pos all]
  simp [space]

theorem beginsSpace {c : Char} (begins : Begins c) : isSpace c = false := by
  obtain ⟨printable, space, _⟩ := begins
  have tab := printableOther printable (d := '\t') (by decide)
  simp [isSpace, space, tab]

theorem beginGap {c : Char} (begins : Begins c) (cs : List Char) :
    dropGap false (c :: cs) = some (c :: cs) := by
  have space := beginsSpace begins
  obtain ⟨printable, _, comment⟩ := begins
  have line := printableOther printable (d := '\n') (by decide)
  have turn := printableOther printable (d := '\r') (by decide)
  unfold dropGap
  split
  · contradiction
  · rename_i same; exact absurd (List.cons.inj same).1 line
  · rename_i same; exact absurd (List.cons.inj same).1 turn
  · rename_i same
    obtain ⟨rfl, rfl⟩ := List.cons.inj same
    simp [space, comment]

theorem gapPassed {a : List Char} (spaces : Spaces a) {c : Char} (begins : Begins c)
    (cs : List Char) : dropGap false (a ++ c :: cs) = some (c :: cs) := by
  induction a with
  | nil => exact beginGap begins cs
  | cons d a ih =>
    obtain ⟨rfl, tail⟩ := Notation.spacesCons.mp spaces
    exact ih tail

theorem textRead {s : String} {cs rest : List Char} (h : Content .toml s.toList cs)
    (ended : rest.head? ≠ some '\x22') (depth fuel : Nat) :
    valueFrom depth (fuel + 1) (quoted cs ++ rest) = some (.text s, rest) := by
  have read := stringRead h ended
  rw [quotedAppend] at read ⊢
  simp [valueFrom, read]

variable {cs ds es more : List Char} {c : Char} {v : Item} {depth fuel : Nat}

/- A list goes on behind a comma and is over behind the bracket. -/
theorem itemsGoOn (begins : dropGap false cs = some (c :: ds)) (other : c ≠ ']')
    (value : valueFrom depth fuel (c :: ds) = some (v, es))
    (comma : dropGap false es = some (',' :: more)) :
    itemsFrom depth (fuel + 1) cs =
      (itemsFrom depth fuel more).map fun (vs, rest) => (v :: vs, rest) := by
  rw [itemsFrom, begins]
  cases next : itemsFrom depth fuel more <;> simp [other, value, comma, continued?, next]

theorem itemsEnd (begins : dropGap false cs = some (c :: ds)) (other : c ≠ ']')
    (value : valueFrom depth fuel (c :: ds) = some (v, es))
    (bracket : dropGap false es = some (']' :: more)) :
    itemsFrom depth (fuel + 1) cs = some ([v], more) := by
  rw [itemsFrom, begins]
  simp [other, value, bracket, continued?]

theorem quoteGap {a : List Char} (spaces : Spaces a) (cs rest : List Char) :
    dropGap false (a ++ (quoted cs ++ rest)) = some (quoted cs ++ rest) := by
  rw [quotedAppend]
  exact gapPassed spaces (by decide) _

theorem spacesHead {b : List Char} (spaces : Spaces b) (other : c ≠ '\x22') (cs : List Char) :
    (b ++ c :: cs).head? ≠ some '\x22' := by
  cases b with
  | nil => simp [other]
  | cons d b => simp [spaces d List.mem_cons_self]

theorem itemsRead {ws cs} (h : Items .toml ws cs) (depth : Nat) {fuel : Nat}
    (enough : cs.length < fuel) (rest : List Char) :
    itemsFrom depth fuel (cs ++ ']' :: rest) = some (ws.map .text, rest) := by
  induction h generalizing fuel with
  | @last a w cs b before word after =>
    obtain ⟨f, rfl⟩ : ∃ f, fuel = f + 2 := ⟨fuel - 2, by simp [quoted] at enough; omega⟩
    have begins := quoteGap before cs (b ++ ']' :: rest)
    have value := textRead word (spacesHead after (c := ']') (by decide) rest) depth f
    rw [quotedAppend] at begins value
    rw [List.append_assoc, List.append_assoc, quotedAppend]
    exact itemsEnd begins (by decide) value (gapPassed after (by decide) rest)
  | @more a w cs b ws ds before word after tail ih =>
    obtain ⟨f, rfl⟩ : ∃ f, fuel = f + 2 := ⟨fuel - 2, by simp [quoted] at enough; omega⟩
    have shorter : ds.length < f + 1 := by simp [quoted] at enough; omega
    have begins := quoteGap before cs (b ++ ',' :: (ds ++ ']' :: rest))
    have value := textRead word (spacesHead after (c := ',') (by decide) (ds ++ ']' :: rest)) depth f
    rw [quotedAppend] at begins value
    rw [List.append_assoc, List.append_assoc, List.append_assoc, List.cons_append, quotedAppend,
      itemsGoOn begins (by decide) value (gapPassed after (by decide) _), ih shorter]
    rfl

theorem letterWord {c : Char} (letter : c.isAlpha = true) : Word.isWordChar c = true := by
  simp [Word.isWordChar, Char.isAlphanum, letter]

theorem splitWord {w : List Char} (all : ∀ c ∈ w, Word.isWordChar c = true) (rest : List Char) :
    Word.split (w ++ '\n' :: rest) = (w, '\n' :: rest) := by
  have line : Word.isWordChar '\n' = false := by decide
  rw [Word.split, List.takeWhile_append_of_pos all, List.dropWhile_append_of_pos all]
  simp [line]

theorem bareValue {c : Char} (letter : c.isAlpha = true) (depth fuel : Nat) (cs : List Char) :
    valueFrom depth (fuel + 1) (c :: cs) = word? (c :: cs) := by
  have double := letterOther letter (d := '\x22') rfl
  have single := letterOther letter (d := '\x27') rfl
  have bracket := letterOther letter (d := '[') rfl
  have brace := letterOther letter (d := '\x7b') rfl
  simp [valueFrom, string?, shortString?, double, single, bracket, brace]

theorem truthRead (b : Bool) (depth fuel : Nat) (rest : List Char) :
    valueFrom depth (fuel + 1) ((truthWord b).toList ++ '\n' :: rest) =
      some (.boolean b, '\n' :: rest) := by
  have whole : ∀ c ∈ (truthWord b).toList, Word.isWordChar c = true :=
    fun c member => letterWord (Notation.truthLetters b c member)
  have known : wordItem? (truthWord b).toList = some (.boolean b) := by
    cases b <;> rfl
  have bare : valueFrom depth (fuel + 1) ((truthWord b).toList ++ '\n' :: rest) =
      word? ((truthWord b).toList ++ '\n' :: rest) := by
    cases b
    · exact bareValue (c := 'f') rfl depth fuel _
    · exact bareValue (c := 't') rfl depth fuel _
  rw [bare, word?, splitWord whole]
  simp only [known, Option.map_some]

/- A value that is the last thing on its line. -/
theorem valueRead {v cs} (h : Written .toml v cs) (depth : Nat) {fuel : Nat}
    (enough : cs.length < fuel) (rest : List Char) :
    valueFrom (depth + 1) fuel (cs ++ '\n' :: rest) = some (item v, '\n' :: rest) := by
  obtain ⟨f, rfl⟩ : ∃ f, fuel = f + 1 := ⟨fuel - 1, by omega⟩
  cases h with
  | text content => exact textRead content (by simp) (depth + 1) f
  | truth b => exact truthRead b (depth + 1) f rest
  | @noWords a inside =>
    obtain ⟨g, rfl⟩ : ∃ g, f = g + 1 := ⟨f - 1, by simp at enough; omega⟩
    have gap := gapPassed inside (c := ']') (by decide) ('\n' :: rest)
    simp [valueFrom, itemsFrom, gap, item]
  | @words ws cs items =>
    have shorter : cs.length < f := by simp at enough; omega
    simp [valueFrom, itemsRead items depth shorter, item]

/-! ### Lines -/

theorem letterKey {c : Char} (letter : c.isAlpha = true) : isBareKeyChar c = true := by
  simp [isBareKeyChar, Char.isAlphanum, letter]

theorem keyRead {key : String} (known : key ∈ keys) (cs : List Char) :
    key? (key.toList ++ ' ' :: '=' :: cs) = some (([], key), '=' :: cs) := by
  obtain ⟨c, ds, shape, _, letter⟩ := keyBegins known
  have double := letterOther letter (d := '\x22') rfl
  have single := letterOther letter (d := '\x27') rfl
  have bare : ∀ d ∈ key.toList, isBareKeyChar d = true :=
    fun d member => letterKey (Notation.keyLetters key known d member)
  have space : isBareKeyChar ' ' = false := by decide
  have filled := Notation.keyFilled key known
  have unquoted : shortString? (key.toList ++ ' ' :: '=' :: cs) = none := by
    simp [shape, shortString?, double, single]
  have part : keyPart? (key.toList ++ ' ' :: '=' :: cs) = some (key, ' ' :: '=' :: cs) := by
    rw [keyPart?, unquoted, List.takeWhile_append_of_pos bare, List.dropWhile_append_of_pos bare]
    simp [space, filled]
  have next : dropSpace (' ' :: '=' :: cs) = '=' :: cs := by
    simp [dropSpace, isSpace]
  rw [key?, keyFrom, part]
  simp [next]

theorem entryStatement {c : Char} (other : c ≠ '[') (cs : List Char) :
    statement? (c :: cs) = (lineEntry (c :: cs)).map fun (e, cs) => (.entry e, cs) := by
  simp [statement?, other]

theorem lineRead {key : String} {v a cs} (known : key ∈ keys) (gap : Spaces a)
    (value : Written .toml v cs) (rest : List Char) :
    statement? (key.toList ++ (Notation.toml.mark ++ ' ' :: (a ++ (cs ++ '\n' :: rest)))) =
      some (.entry ⟨[], key, item v⟩, '\n' :: rest) := by
  obtain ⟨c, ds, shape, _, letter⟩ := keyBegins known
  obtain ⟨d, es, first, begins⟩ := Notation.writtenBegins value
  have bracket := letterOther letter (d := '[') rfl
  have mark : Notation.toml.mark = [' ', '='] := rfl
  have passed : dropSpace (' ' :: (a ++ (cs ++ '\n' :: rest))) = cs ++ '\n' :: rest := by
    have spaces : Spaces (' ' :: a) := Notation.spacesCons.mpr ⟨rfl, gap⟩
    rw [first]
    exact spacesPassed spaces (beginsSpace begins) _
  have entry : lineEntry (key.toList ++ ' ' :: '=' :: ' ' :: (a ++ (cs ++ '\n' :: rest))) =
      some (⟨[], key, item v⟩, '\n' :: rest) := by
    have between (cs : List Char) : dropBetween false cs = some (dropSpace cs) := rfl
    have equals (cs : List Char) : dropSpace ('=' :: cs) = '=' :: cs := rfl
    have enough : cs.length < 3 * (key.toList ++ ' ' :: '=' :: ' ' ::
        (a ++ (cs ++ '\n' :: rest))).length + 2 := by
      simp
      omega
    have read := valueRead value 79 enough rest
    rw [lineEntry, entryFrom, keyRead known]
    simp only [Option.bind_eq_bind, Option.bind_some, between, equals, passed]
    rw [maxDepth, read]
    rfl
  rw [mark, List.cons_append, List.singleton_append, shape, List.cons_append,
    entryStatement bracket, ← List.cons_append, ← shape, entry]
  rfl

def statement (e : String × Value) : Statement := .entry ⟨[], e.1, item e.2⟩

theorem statementsNext {c : Char} {cs rest : List Char} {s : Statement} (begins : Begins c)
    (read : statement? (c :: cs) = some (s, '\n' :: rest)) (fuel : Nat) :
    statementsFrom (fuel + 1) (c :: cs) = (statementsFrom fuel rest).map (s :: ·) := by
  have line : dropLine false ('\n' :: rest) = some rest := by simp [dropLine]
  rw [statementsFrom, beginGap begins]
  simp only [Option.bind_eq_bind, Option.bind_some, read, line]
  cases statementsFrom fuel rest <;> rfl

theorem statementsRead {es cs} (h : Lines .toml es cs) (known : ∀ e ∈ es, e.1 ∈ keys) {fuel : Nat}
    (enough : cs.length < fuel) : statementsFrom fuel cs = some (es.map statement) := by
  obtain ⟨f, rfl⟩ : ∃ f, fuel = f + 1 := ⟨fuel - 1, by omega⟩
  induction h generalizing f with
  | nil => rfl
  | @cons key v a cs es ds gap value tail ih =>
    obtain ⟨first, others⟩ := List.forall_mem_cons.mp known
    have line := lineRead first gap value ds
    obtain ⟨c, letters, shape, begins, _⟩ := keyBegins first
    obtain ⟨g, rfl⟩ : ∃ g, f = g + 1 := ⟨f - 1, by simp at enough; omega⟩
    rw [shape, List.cons_append] at line
    rw [shape, List.cons_append, statementsNext begins line,
      ih others g (by simp at enough; omega)]
    rfl

theorem textStatements {es} {text : String} (h : Lines .toml es text.toList)
    (known : ∀ e ∈ es, e.1 ∈ keys) : statements? text = some (es.map statement) := by
  have unmarked : text.toList.head? ≠ some '\uFEFF' := by
    intro same
    have member := List.mem_of_head? same
    rcases Notation.linesPrintable h known _ member with printable | line
    · exact absurd printable (by decide)
    · contradiction
  have read := statementsRead h known (Nat.lt_succ_self _)
  rw [statements?, if_neg unmarked]
  exact read

/-! ### The whole text -/

def member (e : String × Value) : String × Item := (e.1, item e.2)

theorem noSections (es : List (String × Value)) :
    sections (es.map statement) = (es.map fun e => ⟨[], e.1, item e.2⟩, []) := by
  induction es with
  | nil => rfl
  | cons e es ih => simp [sections, statement, ih]

theorem setFresh {ms : Members} {key : String} (fresh : ms.lookup key = none) (v : Item) :
    ms.set key v = ms ++ [(key, v)] := by
  induction ms with
  | nil => rfl
  | cons m ms ih =>
    have apart := List.lookup_eq_none_iff.mp fresh
    obtain ⟨other, rest⟩ := List.forall_mem_cons.mp apart
    have different : m.1 ≠ key := (bne_iff_ne.mp other).symm
    rw [Members.set, if_neg different, ih (List.lookup_eq_none_iff.mpr rest)]
    rfl

theorem addFresh {ms : Members} {key : String} (fresh : ms.lookup key = none) (v : Item) :
    ms.add [] key v = some (ms ++ [(key, v)]) := by
  have appended := setFresh fresh v
  simp [Members.add, Members.alter, fresh, Members.define, appended]

theorem addApart {es : List (String × Value)} (ms : Members)
    (apart : (ms.map Prod.fst ++ es.map Prod.fst).Nodup) :
    Members.addAll ms (es.map fun e => ⟨[], e.1, item e.2⟩) = some (ms ++ es.map member) := by
  induction es generalizing ms with
  | nil => simp [Members.addAll]
  | cons e es ih =>
    have fresh : ms.lookup e.1 = none := by
      refine List.lookup_eq_none_iff.mpr fun m inside => ?_
      have other := (List.nodup_append.mp apart).2.2 m.1 (List.mem_map_of_mem inside) e.1 (by simp)
      exact bne_iff_ne.mpr other.symm
    have rest := ih (ms ++ [member e]) (by simpa [member] using apart)
    rw [List.map_cons, Members.addAll, List.foldlM_cons, addFresh fresh]
    simpa [Members.addAll, member] using rest

theorem textMembers {es} {text : String} (h : Lines .toml es text.toList)
    (known : ∀ e ∈ es, e.1 ∈ keys) (apart : (es.map Prod.fst).Nodup) :
    read? text = some (es.map member) := by
  have added := addApart [] (by simpa using apart)
  rw [read?, textStatements h known]
  simp [ofStatements?, noSections, added]

end LintGate.Toml

namespace LintGate.Settings
open Notation (Lines)

/-! ### Settings -/

variable {es : List (String × Value)} {key : String}

theorem optionalRead {α β : Type} {read : Toml.Item → Option β} {inject : α → Value}
    {result : α → β} (reads : ∀ a, read (Toml.item (inject a)) = some (result a))
    {stated : Option α} (found : es.lookup key = stated.map inject) :
    optional read (es.map Toml.member) key = some (stated.map result) := by
  have lookup : (es.map Toml.member).lookup key = (es.lookup key).map Toml.item :=
    Declaration.lookupMapped Toml.item es key
  rw [optional, lookup, found]
  cases stated with
  | none => rfl
  | some a => simp [reads]

theorem commandRead (c : Command) : command? (Toml.item c.value) = some c.argv := by
  cases c with
  | program name => rfl
  | words ws =>
    show (ws.map Toml.Item.text).mapM text? = some ws
    exact elementsRead fun _ _ => rfl

theorem tomlRead {text : String} {d : Declaration} (h : Notation.toml.Declares text d) :
    ofToml? text = some d.settings := by
  obtain ⟨es, order, lines⟩ := h
  have found := Declaration.orderedLookups order
  have members := Toml.textMembers lines (Declaration.orderedKeys order)
    (Declaration.orderedApart order)
  have texts : ∀ s : String, text? (Toml.item (.text s)) = some (id s) := fun _ => rfl
  have truths : ∀ b : Bool, boolean? (Toml.item (.truth b)) = some (id b) := fun _ => rfl
  rw [ofToml?, members, Option.bind_some, ofMembers?, optionalRead texts found.format,
    optionalRead truths found.strict, optionalRead texts found.preset,
    optionalRead truths found.localConfig, optionalRead commandRead found.command]
  simp [Declaration.settings]

end LintGate.Settings
