import LintGate.Json.Value
import LintGate.Proofs.Json.Grammar
/-! Where an array ends in a text. Its last bracket leaves the scanner between two words and the
reader with nothing to wait for, so only spaces can follow. No text that is read as an array goes
on to another one, and none is the beginning of another. -/
namespace LintGate.Json

/-! ### Words -/
namespace Token

/- The words that are over when the characters have been passed, and where the scanner stands. -/
def pass : Scan → List Char → Option (List Token × Scan)
  | s, [] => some ([], s)
  | s, c :: cs => do
      let (ts, s) ← advance s c
      let (us, s) ← pass s cs
      some (ts ++ us, s)

theorem scanBehind (s : Scan) (cs ds : List Char) :
    scanFrom s (cs ++ ds) = (pass s cs).bind fun p => (scanFrom p.2 ds).map (p.1 ++ ·) := by
  induction cs generalizing s with
  | nil => simp [pass]
  | cons c cs ih =>
    rw [List.cons_append, scanFrom, pass]
    cases advance s c with
    | none => rfl
    | some step =>
      obtain ⟨ts, s⟩ := step
      simp only [Option.bind_eq_bind, Option.bind_some, ih]
      cases pass s cs with
      | none => rfl
      | some rest =>
        obtain ⟨us, s⟩ := rest
        simp only [Option.bind_some]
        cases scanFrom s ds <;> simp

theorem scanPassed {s : Scan} {cs : List Char} {ts : List Token} (h : scanFrom s cs = some ts) :
    ∃ us s' vs, pass s cs = some (us, s') ∧ finish s' = some vs ∧ ts = us ++ vs := by
  have behind := scanBehind s cs []
  rw [List.append_nil, h] at behind
  obtain ⟨⟨us, s'⟩, passed, rest⟩ := Option.bind_eq_some_iff.mp behind.symm
  obtain ⟨vs, last, whole⟩ := Option.map_eq_some_iff.mp rest
  exact ⟨us, s', vs, passed, last, whole.symm⟩

/- A step that ends no word and begins none passes over a space. -/
theorem startNothing {c : Char} (h : start c = some ([], .between)) : isSpace c = true := by
  cases space : isSpace c with
  | true => rfl
  | false =>
    simp only [start, space, Bool.false_eq_true, if_false] at h
    split at h
    · cases h
    · split at h
      · cases h
      · split at h
        · cases h
        · obtain ⟨t, _, none⟩ := Option.map_eq_some_iff.mp h
          cases none

theorem advanceNothing {s : Scan} {c : Char} (h : advance s c = some ([], .between)) :
    s = .between ∧ isSpace c = true := by
  cases s with
  | between => exact ⟨rfl, startNothing h⟩
  | word seen | number seen =>
    simp only [advance] at h
    split at h
    · cases h
    · obtain ⟨t, _, rest⟩ := Option.bind_eq_some_iff.mp h
      obtain ⟨_, _, none⟩ := Option.bind_eq_some_iff.mp rest
      cases none
  | string seen =>
    simp only [advance] at h
    split at h
    · cases h
    · split at h
      · cases h
      · split at h <;> cases h
  | escape seen =>
    simp only [advance] at h
    split at h
    · cases h
    · obtain ⟨_, _, none⟩ := Option.map_eq_some_iff.mp h
      cases none
  | hex seen owed value =>
    obtain ⟨_, _, none⟩ := Option.map_eq_some_iff.mp h
    split at none <;> cases none

theorem scanNothing {s : Scan} {cs : List Char} (h : scanFrom s cs = some []) :
    s = .between ∧ ∀ c ∈ cs, isSpace c = true := by
  induction cs generalizing s with
  | nil =>
    refine ⟨?_, by simp⟩
    cases s with
    | between => rfl
    | word seen | number seen =>
      obtain ⟨_, _, none⟩ := Option.map_eq_some_iff.mp h
      cases none
    | string | escape | hex => cases h
  | cons c cs ih =>
    obtain ⟨⟨ts, s'⟩, step, rest⟩ := Option.bind_eq_some_iff.mp h
    obtain ⟨us, tail, none⟩ := Option.bind_eq_some_iff.mp rest
    obtain ⟨rfl, rfl⟩ := List.append_eq_nil_iff.mp (Option.some.inj none)
    obtain ⟨rfl, spaces⟩ := ih tail
    obtain ⟨rfl, space⟩ := advanceNothing step
    exact ⟨rfl, List.forall_mem_cons.mpr ⟨space, spaces⟩⟩

/- A word that only the end of the text ends is a literal or a number. -/
def Scalar (t : Token) : Prop := t = .null ∨ (∃ b, t = .boolean b) ∨ ∃ cs, t = .number cs

theorem literalScalar {cs : List Char} {t : Token} (h : literal? cs = some t) : t.Scalar := by
  unfold literal? at h
  split at h
  · cases h; exact .inl rfl
  · split at h
    · cases h; exact .inr (.inl ⟨true, rfl⟩)
    · split at h <;> cases h
      exact .inr (.inl ⟨false, rfl⟩)

theorem numberScalar {cs : List Char} {t : Token} (h : number? cs = some t) : t.Scalar := by
  unfold number? at h
  split at h <;> cases h
  exact .inr (.inr ⟨cs, rfl⟩)

theorem finishScalar {s : Scan} {ts : List Token} (h : finish s = some ts) :
    s = .between ∧ ts = [] ∨ ∃ t, ts = [t] ∧ t.Scalar := by
  cases s with
  | between => cases h; exact .inl ⟨rfl, rfl⟩
  | word seen =>
    obtain ⟨t, read, rfl⟩ := Option.map_eq_some_iff.mp h
    exact .inr ⟨t, rfl, literalScalar read⟩
  | number seen =>
    obtain ⟨t, read, rfl⟩ := Option.map_eq_some_iff.mp h
    exact .inr ⟨t, rfl, numberScalar read⟩
  | string | escape | hex => cases h

end Token

/-! ### Values -/
namespace Value

theorem buildBehind (a : Await) (ts us : List Token) :
    buildFrom a (ts ++ us) = (ts.foldlM advance a).bind (buildFrom · us) := by
  induction ts generalizing a with
  | nil => rfl
  | cons t ts ih =>
    have step (b : Await) : buildFrom b (t :: (ts ++ us)) =
        (advance b t).bind (buildFrom · (ts ++ us)) := by cases b <;> rfl
    rw [List.cons_append, step, List.foldlM_cons]
    cases advance a t with
    | none => rfl
    | some b => exact ih b

theorem buildEnd {a : Await} {v : Value} (h : buildFrom a [] = some v) : a = .done v := by
  cases a <;> cases h
  rfl

theorem buildDone {v w : Value} {ts : List Token} (h : buildFrom (.done v) ts = some w) :
    ts = [] ∧ w = v := by
  cases ts with
  | nil => cases h; exact ⟨rfl, rfl⟩
  | cons t ts => cases h

theorem scalarDone {a : Await} {t : Token} {v : Value} (scalar : t.Scalar)
    (step : advance a t = some (.done v)) (items : List Value) : v ≠ .array items := by
  rintro rfl
  cases a with
  | value frames =>
    cases frames with
    | nil => rcases scalar with rfl | ⟨b, rfl⟩ | ⟨cs, rfl⟩ <;> cases step
    | cons f frames =>
      cases f <;> rcases scalar with rfl | ⟨b, rfl⟩ | ⟨cs, rfl⟩ <;> cases step
  | itemOrClose | keyOrClose | key | colon | afterItem | afterMember | done =>
    rcases scalar with rfl | ⟨b, rfl⟩ | ⟨cs, rfl⟩ <;> cases step

/- All words of an array are over where its text ends, and the reader is done with them. -/
theorem arrayPassed {cs : List Char} {items : List Value}
    (h : read? (String.ofList cs) = some (.array items)) :
    ∃ ts, Token.pass .between cs = some (ts, .between) ∧
      ts.foldlM advance (.value []) = some (.done (.array items)) := by
  rw [read?, String.toList_ofList] at h
  obtain ⟨ts, scanned, built⟩ := Option.bind_eq_some_iff.mp h
  obtain ⟨us, s, vs, passed, last, rfl⟩ := Token.scanPassed scanned
  rw [ofTokens?, buildBehind] at built
  obtain ⟨a, reached, rest⟩ := Option.bind_eq_some_iff.mp built
  rcases Token.finishScalar last with ⟨rfl, rfl⟩ | ⟨t, rfl, scalar⟩
  · cases buildEnd rest
    exact ⟨us, passed, reached⟩
  · rw [← List.append_nil [t], buildBehind, List.foldlM_cons] at rest
    obtain ⟨b, step, done⟩ := Option.bind_eq_some_iff.mp rest
    obtain ⟨b', stepped, none⟩ := Option.bind_eq_some_iff.mp step
    cases none
    cases buildEnd done
    exact absurd rfl (scalarDone scalar stepped items)

theorem arrayExtent {cs ds : List Char} {items : List Value} {v : Value}
    (first : read? (String.ofList cs) = some (.array items))
    (whole : read? (String.ofList (cs ++ ds)) = some v) :
    ∀ c ∈ ds, Token.isSpace c = true := by
  obtain ⟨ts, passed, reached⟩ := arrayPassed first
  rw [read?, String.toList_ofList] at whole
  obtain ⟨us, scanned, built⟩ := Option.bind_eq_some_iff.mp whole
  rw [Token.scan?, Token.scanBehind, passed, Option.bind_some] at scanned
  obtain ⟨vs, behind, rfl⟩ := Option.map_eq_some_iff.mp scanned
  rw [ofTokens?, buildBehind, reached, Option.bind_some] at built
  obtain ⟨rfl, _⟩ := buildDone built
  exact (Token.scanNothing behind).2

end Value
end LintGate.Json
