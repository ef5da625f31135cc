import LintGate.Proofs.Json.Lexing
import LintGate.Proofs.Json.Reading
/-! The reader takes nothing but what the grammar derives, so it reads a text as a value exactly
where the text spells that value. What the reader waits for is told as a condition on the text
that is to come; each word carries it back over itself. -/
namespace LintGate.Json
open Grammar (Spaces Phrase Spells Key NoText Content quoted spacesNone spacesAppend)

/-! ### Quotes -/
namespace Piece
open Grammar (Literal)

theorem speltLiteral {ps : List Piece} {cs : List Char} (h : Spelt ps cs) : Literal cs := by
  induction h with
  | nil => exact .nil
  | itself plain tail ih => exact .itself plain ih
  | short listed tail ih => exact .short listed ih
  | unit hex named tail ih => exact .unit hex ih

theorem speltOnce {ps qs : List Piece} {cs : List Char} (h : Spelt ps cs) (other : Spelt qs cs) :
    ps = qs := by
  have first := Token.speltScanned h [] []
  have second := Token.speltScanned other [] []
  rw [first] at second
  simpa [Token.scanFrom, Token.finish] using second

theorem unjoinedNoText {ps : List Piece} {cs : List Char} (h : Spelt ps cs)
    (apart : join? ps = none) : NoText cs := by
  refine ⟨speltLiteral h, ?_⟩
  intro s content
  obtain ⟨qs, spelt, joined⟩ := contentSpelt content
  rw [speltOnce spelt h, apart] at joined
  cases joined

end Piece

namespace Value
open Token (Word Lexed)

theorem piecesKey {ps : List Piece} {cs : List Char} (h : Piece.Spelt ps cs) :
    Key (keyOf ps) cs := by
  unfold keyOf
  cases joined : Piece.join? ps with
  | none => exact .illFormed (Piece.unjoinedNoText h joined)
  | some s =>
    have content := Piece.joinedContent h joined
    exact .text (by rwa [String.toList_ofList])

theorem piecesValue {ps : List Piece} {cs : List Char} (h : Piece.Spelt ps cs) :
    Spells (.value (ofPieces ps)) (quoted cs) := by
  unfold ofPieces
  cases joined : Piece.join? ps with
  | none => exact .illFormed (Piece.unjoinedNoText h joined)
  | some s =>
    have content := Piece.joinedContent h joined
    exact .text (by rwa [String.toList_ofList])

/-! ### What is to come -/

/- It spells the phrase, and does so with spaces behind it as well. -/
def Open (p : Phrase) (cs : List Char) : Prop := ∀ b, Spaces b → Spells p (cs ++ b)

theorem openValue {a : List Char} {v : Value} {cs : List Char} (before : Spaces a)
    (h : Spells (.value v) cs) : Open (.spaced v) (a ++ cs) := by
  intro b after
  rw [List.append_assoc]
  exact .spaced before h after

theorem openMember {a ks b cs : List Char} {k : Option String} {v : Value} (before : Spaces a)
    (key : Key k ks) (after : Spaces b) (h : Open (.spaced v) cs) :
    Open (.member k v) (a ++ (quoted ks ++ (b ++ ':' :: cs))) := by
  intro c spaces
  have whole := Spells.member before key after (h c spaces)
  simpa using whole

/- Behind one element come the others, the bracket that closes them and the rest: whichever element
stands before, up to the bracket the text spells them all. -/
def Others {α : Type} (one : α → Phrase) (many : List α → Phrase) (closing : Char)
    (cs : List Char) (xs : List α) (rest : List Char) : Prop :=
  ∀ x ds, Open (one x) ds →
    ∃ inside, Spells (many (x :: xs)) inside ∧ ds ++ cs = inside ++ closing :: rest

section Others
variable {α : Type} {one : α → Phrase} {many : List α → Phrase} {closing : Char}

theorem othersNone (last : ∀ {x cs}, Spells (one x) cs → Spells (many [x]) cs) {b : List Char}
    (spaces : Spaces b) (rest : List Char) :
    Others one many closing (b ++ closing :: rest) [] rest :=
  fun _ ds h => ⟨ds ++ b, last (h b spaces), by simp⟩

theorem othersMore
    (more : ∀ {x cs xs ds}, Spells (one x) cs → Spells (many xs) ds →
      Spells (many (x :: xs)) (cs ++ ',' :: ds))
    {b ds cs rest : List Char} {y : α} {ys : List α} (spaces : Spaces b) (next : Open (one y) ds)
    (h : Others one many closing cs ys rest) :
    Others one many closing (b ++ ',' :: (ds ++ cs)) (y :: ys) rest := by
  intro x es first
  obtain ⟨inside, spells, split⟩ := h y ds next
  exact ⟨(es ++ b) ++ ',' :: inside, more (first b spaces) spells, by simp [split]⟩

end Others

def OtherItems : List Char → List Value → List Char → Prop := Others .spaced .items ']'

def OtherMembers : List Char → List (Option String × Value) → List Char → Prop :=
  Others (fun m => .member m.1 m.2) .members '}'

/- A value is done, and this text comes behind it: with the frames around it the whole makes `j`. -/
def Closes : List Frame → Value → List Char → Value → Prop
  | [], v, cs, j => j = v ∧ Spaces cs
  | .items before :: frames, v, cs, j =>
      ∃ vs rest, OtherItems cs vs rest ∧ Closes frames (.array (before.reverse ++ v :: vs)) rest j
  | .members before key :: frames, v, cs, j =>
      ∃ ms rest, OtherMembers cs ms rest ∧
        Closes frames (.object (before.reverse ++ (key, v) :: ms)) rest j

/- A value comes, with whatever follows it. -/
def Comes (frames : List Frame) (cs : List Char) (j : Value) : Prop :=
  ∃ v ds rest, cs = ds ++ rest ∧ Open (.spaced v) ds ∧ Closes frames v rest j

def Needs : Await → List Char → Value → Prop
  | .value frames, cs, j => Comes frames cs j
  | .itemOrClose frames, cs, j =>
      ∃ vs inside rest, cs = inside ++ ']' :: rest ∧
        Spells (.value (.array vs)) ('[' :: (inside ++ [']'])) ∧ Closes frames (.array vs) rest j
  | .keyOrClose frames, cs, j =>
      ∃ ms inside rest, cs = inside ++ '}' :: rest ∧
        Spells (.value (.object ms)) ('{' :: (inside ++ ['}'])) ∧ Closes frames (.object ms) rest j
  | .key before frames, cs, j =>
      ∃ k v ds rest, cs = ds ++ rest ∧ Open (.member k v) ds ∧
        Closes (.members before k :: frames) v rest j
  | .colon before key frames, cs, j =>
      ∃ b rest, cs = b ++ ':' :: rest ∧ Spaces b ∧ Comes (.members before key :: frames) rest j
  | .afterItem before frames, cs, j =>
      ∃ vs rest, OtherItems cs vs rest ∧ Closes frames (.array (before.reverse ++ vs)) rest j
  | .afterMember before frames, cs, j =>
      ∃ ms rest, OtherMembers cs ms rest ∧ Closes frames (.object (before.reverse ++ ms)) rest j
  | .done v, cs, j => j = v ∧ Spaces cs

theorem completeNeeds {v : Value} {frames : List Frame} {cs : List Char} {j : Value}
    (h : Needs (complete v frames) cs j) : Closes frames v cs j := by
  cases frames with
  | nil => exact h
  | cons f frames =>
    cases f with
    | items before => simpa [complete, Needs, Closes] using h
    | members before key => simpa [complete, Needs, Closes] using h

/-! ### Words -/

variable {frames : List Frame} {a w cs : List Char} {j v : Value}

theorem wordComes (before : Spaces a) (spells : Spells (.value v) w)
    (h : Needs (complete v frames) cs j) : Comes frames (a ++ (w ++ cs)) j :=
  ⟨v, a ++ w, cs, by simp, openValue before spells, completeNeeds h⟩

theorem beginNeeds {t : Token} {next : Await} (step : begin frames t = some next)
    (before : Spaces a) (word : Word t w) (h : Needs next cs j) :
    Comes frames (a ++ (w ++ cs)) j := by
  cases word with
  | openArray =>
    cases step
    obtain ⟨vs, inside, rest, rfl, spells, closes⟩ := h
    exact ⟨.array vs, a ++ '[' :: (inside ++ [']']), rest, by simp, openValue before spells, closes⟩
  | openObject =>
    cases step
    obtain ⟨ms, inside, rest, rfl, spells, closes⟩ := h
    exact ⟨.object ms, a ++ '{' :: (inside ++ ['}']), rest, by simp, openValue before spells,
      closes⟩
  | closeArray | closeObject | comma | colon => cases step
  | null =>
    cases step
    exact wordComes before .null h
  | yes =>
    cases step
    exact wordComes before .yes h
  | no =>
    cases step
    exact wordComes before .no h
  | number number =>
    cases step
    exact wordComes before (.number number) h
  | string spelt =>
    cases step
    exact wordComes before (piecesValue spelt) h

/- The first item of an array, where it has one. -/
theorem firstItem (h : Comes (.items [] :: frames) cs j) : Needs (.itemOrClose frames) cs j := by
  obtain ⟨v, ds, rest, rfl, first, vs, behind, others, closes⟩ := h
  obtain ⟨inside, spells, split⟩ := others v ds first
  exact ⟨v :: vs, inside, behind, split, .array spells, closes⟩

theorem firstKey (h : Needs (.key [] frames) cs j) : Needs (.keyOrClose frames) cs j := by
  obtain ⟨k, v, ds, rest, rfl, first, ms, behind, others, closes⟩ := h
  obtain ⟨inside, spells, split⟩ := others (k, v) ds first
  exact ⟨(k, v) :: ms, inside, behind, split, .object spells, closes⟩

theorem keyNeeds {members : List (Option String × Value)} {ps : List Piece} {ks : List Char}
    (before : Spaces a) (spelt : Piece.Spelt ps ks)
    (h : Needs (.colon members (keyOf ps) frames) cs j) :
    Needs (.key members frames) (a ++ (quoted ks ++ cs)) j := by
  obtain ⟨b, rest, rfl, spaces, v, ds, behind, rfl, opened, closes⟩ := h
  exact ⟨keyOf ps, v, _, behind, by simp, openMember before (piecesKey spelt) spaces opened, closes⟩

theorem wordNeeds {await next : Await} {t : Token} (step : advance await t = some next)
    (before : Spaces a) (word : Word t w) (h : Needs next cs j) :
    Needs await (a ++ (w ++ cs)) j := by
  cases await with
  | value frames => exact beginNeeds step before word h
  | itemOrClose frames =>
    by_cases closing : t = .closeArray
    · subst closing
      cases word
      cases step
      exact ⟨[], a, cs, rfl, .emptyArray before, completeNeeds h⟩
    · have begun : begin (.items [] :: frames) t = some next := by
        cases t <;> first | contradiction | exact step
      exact firstItem (beginNeeds begun before word h)
  | keyOrClose frames =>
    cases word with
    | closeObject =>
      cases step
      exact ⟨[], a, cs, rfl, .emptyObject before, completeNeeds h⟩
    | string spelt =>
      cases step
      exact firstKey (keyNeeds before spelt h)
    | openArray | closeArray | openObject | comma | colon | null | yes | no | number => cases step
  | key members frames =>
    cases word with
    | string spelt =>
      cases step
      exact keyNeeds before spelt h
    | openArray | closeArray | openObject | closeObject | comma | colon | null | yes | no
      | number => cases step
  | colon members key frames =>
    cases word with
    | colon =>
      cases step
      exact ⟨a, cs, rfl, before, h⟩
    | openArray | closeArray | openObject | closeObject | comma | null | yes | no | number
      | string => cases step
  | afterItem items frames =>
    cases word with
    | comma =>
      cases step
      obtain ⟨v, ds, rest, rfl, opened, vs, behind, others, closes⟩ := h
      refine ⟨v :: vs, behind, ?_, closes⟩
      show OtherItems (a ++ ',' :: (ds ++ rest)) (v :: vs) behind
      exact othersMore .item before opened others
    | closeArray =>
      cases step
      exact ⟨[], cs, othersNone .lastItem before cs, by simpa using completeNeeds h⟩
    | openArray | openObject | closeObject | colon | null | yes | no | number | string =>
      cases step
  | afterMember members frames =>
    cases word with
    | comma =>
      cases step
      obtain ⟨k, v, ds, rest, rfl, opened, ms, behind, others, closes⟩ := h
      refine ⟨(k, v) :: ms, behind, ?_, closes⟩
      show OtherMembers (a ++ ',' :: (ds ++ rest)) ((k, v) :: ms) behind
      exact othersMore .moreMembers before opened others
    | closeObject =>
      cases step
      exact ⟨[], cs, othersNone .lastMember before cs, by simpa using completeNeeds h⟩
    | openArray | closeArray | openObject | colon | null | yes | no | number | string =>
      cases step
  | done v => cases step

/-! ### Texts -/

theorem buildNeeds {await : Await} {ts : List Token} (lexed : Lexed ts cs)
    (built : buildFrom await ts = some j) : Needs await cs j := by
  induction lexed generalizing await with
  | nil spaces =>
    cases await <;> cases built
    exact ⟨rfl, spaces⟩
  | cons before word rest ih =>
    rw [buildStep] at built
    obtain ⟨next, step, built⟩ := Option.bind_eq_some_iff.mp built
    exact wordNeeds step before word (ih built)

/- What a text is read as, if anything, is what it spells. -/
theorem readSpells {s : String} {v : Value} :
    read? s = some v ↔ Spells (.spaced v) s.toList := by
  constructor
  · intro read
    obtain ⟨ts, scanned, built⟩ := Option.bind_eq_some_iff.mp read
    have lexed : Lexed ts s.toList := Token.scanTaken scanned
    obtain ⟨w, ds, rest, split, opened, rfl, spaces⟩ := buildNeeds lexed built
    rw [split]
    exact opened rest spaces
  · intro spells
    have read := readSpelt spells
    rwa [String.ofList_toList] at read

end Value
end LintGate.Json
