import LintGate.Proofs.Json.Quoted
/-! Every text that the grammar derives is read as the value that it spells. The words of a phrase
are followed through the reader's stack: the phrase is done when its value is handed to the frame
below it, whatever that frame is and whatever comes next. -/
namespace LintGate.Json
open Grammar (Phrase Spells Key quoted)

namespace Value
open Token (Scans)

theorem buildStep (a : Await) (t : Token) (ts : List Token) :
    buildFrom a (t :: ts) = (advance a t).bind (buildFrom · ts) := by
  cases a <;> rfl

theorem buildValue (t : Token) (ts : List Token) (frames : List Frame) :
    buildFrom (.value frames) (t :: ts) = (begin frames t).bind (buildFrom · ts) := by
  rw [buildStep]
  rfl

/- An array that has begun and is not closed at once is read as if a comma had come before. -/
theorem buildFirst {t : Token} (other : t ≠ .closeArray) (ts : List Token) (frames : List Frame) :
    buildFrom (.itemOrClose frames) (t :: ts) =
      buildFrom (.value (.items [] :: frames)) (t :: ts) := by
  rw [buildStep, buildValue]
  cases t <;> first | contradiction | rfl

def Opens (ts : List Token) : Prop := ∃ t us, ts = t :: us ∧ t ≠ .closeArray

def Named (ts : List Token) : Prop := ∃ ps us, ts = .string ps :: us

/- What the words of a phrase do, ready for the closing bracket of items and members. -/
def Builds : Phrase → List Token → Prop
  | .value v, ts | .spaced v, ts =>
      Opens ts ∧ ∀ frames rest,
        buildFrom (.value frames) (ts ++ rest) = buildFrom (complete v frames) rest
  | .items vs, ts =>
      Opens ts ∧ ∀ before frames rest,
        buildFrom (.value (.items before :: frames)) (ts ++ .closeArray :: rest) =
          buildFrom (complete (array (before.reverse ++ vs)) frames) rest
  | .member k v, ts =>
      Named ts ∧ ∀ before frames rest,
        buildFrom (.key before frames) (ts ++ rest) =
          buildFrom (.afterMember ((k, v) :: before) frames) rest
  | .members ms, ts =>
      Named ts ∧ ∀ before frames rest,
        buildFrom (.key before frames) (ts ++ .closeObject :: rest) =
          buildFrom (complete (object (before.reverse ++ ms)) frames) rest

theorem opensAppend {ts} (h : Opens ts) (us : List Token) : Opens (ts ++ us) := by
  obtain ⟨t, rest, rfl, other⟩ := h
  exact ⟨t, rest ++ us, rfl, other⟩

theorem namedAppend {ts} (h : Named ts) (us : List Token) : Named (ts ++ us) := by
  obtain ⟨ps, rest, rfl⟩ := h
  exact ⟨ps, rest ++ us, rfl⟩

/- A value of one word. -/
theorem buildsWord {t : Token} {v : Value} (other : t ≠ .closeArray)
    (h : ∀ frames, begin frames t = some (complete v frames)) : Builds (.value v) [t] := by
  refine ⟨⟨t, [], rfl, other⟩, ?_⟩
  intro frames rest
  rw [List.singleton_append, buildValue, h]
  rfl

theorem buildsArray {vs ts} (h : Builds (.items vs) ts) :
    Builds (.value (.array vs)) (.openArray :: (ts ++ [.closeArray])) := by
  obtain ⟨⟨t, us, rfl, other⟩, built⟩ := h
  refine ⟨⟨_, _, rfl, by simp⟩, ?_⟩
  intro frames rest
  have inside := built [] frames rest
  rw [List.cons_append, ← buildFirst other] at inside
  simpa [buildValue, begin] using inside

theorem buildsObject {ms ts} (h : Builds (.members ms) ts) :
    Builds (.value (.object ms)) (.openObject :: (ts ++ [.closeObject])) := by
  obtain ⟨⟨ps, us, rfl⟩, built⟩ := h
  refine ⟨⟨_, _, rfl, by simp⟩, ?_⟩
  intro frames rest
  have inside := built [] frames rest
  simp only [List.cons_append, buildStep, advance] at inside
  simpa [buildValue, begin, buildStep, advance] using inside

theorem buildsItem {v vs ts us} (head : Builds (.spaced v) ts) (tail : Builds (.items vs) us) :
    Builds (.items (v :: vs)) (ts ++ .comma :: us) := by
  refine ⟨opensAppend head.1 _, ?_⟩
  intro before frames rest
  have next := tail.2 (v :: before) frames rest
  rw [List.append_assoc, head.2]
  simpa [complete, buildStep, advance] using next

theorem buildsLastItem {v ts} (h : Builds (.spaced v) ts) : Builds (.items [v]) ts := by
  refine ⟨h.1, ?_⟩
  intro before frames rest
  rw [h.2]
  simp [complete, buildStep, advance]

theorem buildsMember {k v ps ts} (key : keyOf ps = k) (h : Builds (.spaced v) ts) :
    Builds (.member k v) (.string ps :: .colon :: ts) := by
  refine ⟨⟨ps, _, rfl⟩, ?_⟩
  intro before frames rest
  have value := h.2 (.members before k :: frames) rest
  simpa [buildStep, advance, key, complete] using value

theorem buildsMembers {k v ms ts us} (head : Builds (.member k v) ts)
    (tail : Builds (.members ms) us) : Builds (.members ((k, v) :: ms)) (ts ++ .comma :: us) := by
  refine ⟨namedAppend head.1 _, ?_⟩
  intro before frames rest
  have next := tail.2 ((k, v) :: before) frames rest
  rw [List.append_assoc, head.2]
  simpa [buildStep, advance] using next

theorem buildsLastMember {k v ts} (h : Builds (.member k v) ts) :
    Builds (.members [(k, v)]) ts := by
  refine ⟨h.1, ?_⟩
  intro before frames rest
  rw [h.2]
  simp [buildStep, advance]

/-! ### Phrases -/

theorem keySpelt {k ks} (h : Key k ks) : ∃ ps, Piece.Spelt ps ks ∧ keyOf ps = k := by
  cases h with
  | @text s _ content =>
    obtain ⟨ps, spelt, joined⟩ := Piece.contentSpelt content
    exact ⟨ps, spelt, by simp [keyOf, joined]⟩
  | illFormed noText =>
    obtain ⟨ps, spelt, joined⟩ := Piece.noTextSpelt noText
    exact ⟨ps, spelt, by simp [keyOf, joined]⟩

theorem phraseRead {p cs} (h : Spells p cs) : ∃ ts, Scans cs ts ∧ Builds p ts := by
  induction h with
  | null =>
    exact ⟨[.null], Token.scansLiteral rfl (by simp) rfl,
      buildsWord (by simp) fun _ => rfl⟩
  | yes =>
    exact ⟨[.boolean true], Token.scansLiteral rfl (by simp) rfl,
      buildsWord (by simp) fun _ => rfl⟩
  | no =>
    exact ⟨[.boolean false], Token.scansLiteral rfl (by simp) rfl,
      buildsWord (by simp) fun _ => rfl⟩
  | number h => exact ⟨_, Token.scansNumber h, buildsWord (by simp) fun _ => rfl⟩
  | @text s cs content =>
    obtain ⟨ps, spelt, joined⟩ := Piece.contentSpelt content
    refine ⟨_, Token.scansQuoted spelt, buildsWord (by simp) fun frames => ?_⟩
    simp [begin, ofPieces, joined]
  | illFormed noText =>
    obtain ⟨ps, spelt, joined⟩ := Piece.noTextSpelt noText
    refine ⟨_, Token.scansQuoted spelt, buildsWord (by simp) fun frames => ?_⟩
    simp [begin, ofPieces, joined]
  | emptyArray inside =>
    have close := Token.scansPunctuated (c := ']') rfl Token.scansNone
    refine ⟨_, Token.scansPunctuated rfl (Token.scansIndented inside close),
      ⟨_, _, rfl, by simp⟩, ?_⟩
    intro frames rest
    rfl
  | array h ih =>
    obtain ⟨ts, scans, builds⟩ := ih
    have close := Token.scansSeparated (c := ']') scans rfl rfl rfl Token.scansNone
    exact ⟨_, Token.scansPunctuated rfl close, buildsArray builds⟩
  | emptyObject inside =>
    have close := Token.scansPunctuated (c := '}') rfl Token.scansNone
    refine ⟨_, Token.scansPunctuated rfl (Token.scansIndented inside close),
      ⟨_, _, rfl, by simp⟩, ?_⟩
    intro frames rest
    rfl
  | object h ih =>
    obtain ⟨ts, scans, builds⟩ := ih
    have close := Token.scansSeparated (c := '}') scans rfl rfl rfl Token.scansNone
    exact ⟨_, Token.scansPunctuated rfl close, buildsObject builds⟩
  | spaced before h after ih =>
    obtain ⟨ts, scans, builds⟩ := ih
    exact ⟨ts, Token.scansIndented before (Token.scansSpaced scans after), builds⟩
  | lastItem h ih =>
    obtain ⟨ts, scans, builds⟩ := ih
    exact ⟨ts, scans, buildsLastItem builds⟩
  | item head tail ihHead ihTail =>
    obtain ⟨ts, scans, builds⟩ := ihHead
    obtain ⟨us, scansTail, buildsTail⟩ := ihTail
    exact ⟨_, Token.scansSeparated scans rfl rfl rfl scansTail,
      buildsItem builds buildsTail⟩
  | member before key after h ih =>
    obtain ⟨ts, scans, builds⟩ := ih
    obtain ⟨ps, spelt, named⟩ := keySpelt key
    have spaced := Token.scansSpaced (Token.scansQuoted spelt) after
    have whole := Token.scansSeparated (c := ':') spaced rfl rfl rfl scans
    rw [List.append_assoc] at whole
    exact ⟨_, Token.scansIndented before whole, buildsMember named builds⟩
  | lastMember h ih =>
    obtain ⟨ts, scans, builds⟩ := ih
    exact ⟨ts, scans, buildsLastMember builds⟩
  | moreMembers head tail ihHead ihTail =>
    obtain ⟨ts, scans, builds⟩ := ihHead
    obtain ⟨us, scansTail, buildsTail⟩ := ihTail
    exact ⟨_, Token.scansSeparated scans rfl rfl rfl scansTail,
      buildsMembers builds buildsTail⟩

theorem readSpelt {v cs} (h : Spells (.spaced v) cs) : read? (String.ofList cs) = some v := by
  obtain ⟨ts, scans, _, builds⟩ := phraseRead h
  have scanned : Token.scan? cs = some ts := by
    have all := scans [] (by intro c member; contradiction)
    simpa [Token.scan?, Token.scanFrom, Token.finish] using all
  have built : ofTokens? ts = some v := by
    have all := builds [] []
    simpa [ofTokens?, complete, buildFrom] using all
  simp [read?, scanned, built]

theorem readValue {v cs} (h : Spells (.value v) cs) : read? (String.ofList cs) = some v :=
  readSpelt (Grammar.spellsBare h)

end Value
end LintGate.Json
