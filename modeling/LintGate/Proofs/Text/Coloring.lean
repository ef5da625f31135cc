import LintGate.Proofs.Text.Trimming
import LintGate.Text.Layout
import LintGate.Text.Sgr
/-! Texts with and without attributes. Taking the sequences out of a text undoes its colouring where
the text itself has no escape character; the white space at its end may be trimmed before that or
after it, as long as no sequence stands inside it. -/
namespace LintGate.Text

def escape : Char := '\x1b'

/- Whether a character goes on with what may be a sequence, of which `held` has been passed. -/
def continues (held : List Char) (c : Char) : Bool :=
  match held with
  | [] => c == escape
  | [_] => c == '['
  | _ => c.isDigit

/- A sequence is an escape character, a bracket, digits and the letter `m`. -/
def stripFrom (held : List Char) : List Char → List Char
  | [] => held
  | c :: cs =>
      if continues held c then stripFrom (held ++ [c]) cs
      else if held.length > 2 ∧ c = 'm' then stripFrom [] cs
      else held ++ if c = escape then stripFrom [escape] cs else c :: stripFrom [] cs

def strip (s : String) : String := String.ofList (stripFrom [] s.toList)

theorem stripChar {c : Char} (other : c ≠ escape) (cs : List Char) :
    stripFrom [] (c :: cs) = c :: stripFrom [] cs := by
  simp [stripFrom, continues, other]

theorem stripDigits {ds : List Char} (digits : ∀ d ∈ ds, d.isDigit = true) (held cs : List Char) :
    stripFrom (escape :: '[' :: held) (ds ++ cs) =
      stripFrom (escape :: '[' :: (held ++ ds)) cs := by
  induction ds generalizing held with
  | nil => simp
  | cons d ds ih =>
    have digit : d.isDigit = true := digits d (by simp)
    have rest := ih (fun e member => digits e (by simp [member])) (held ++ [d])
    simp only [List.cons_append, stripFrom, continues, digit, if_true]
    rw [rest, List.append_assoc, List.singleton_append]

theorem stripSequence {ds : List Char} (filled : ds ≠ []) (digits : ∀ d ∈ ds, d.isDigit = true)
    (cs : List Char) : stripFrom [] (escape :: '[' :: (ds ++ 'm' :: cs)) = stripFrom [] cs := by
  have opened : stripFrom [] (escape :: '[' :: (ds ++ 'm' :: cs)) =
      stripFrom [escape, '['] (ds ++ 'm' :: cs) := by
    simp [stripFrom, continues]
  have letter : ('m').isDigit = false := by decide
  have long : ds.length ≠ 0 := by simp [filled]
  rw [opened, stripDigits digits, List.nil_append, stripFrom]
  simp only [continues, letter, List.length_cons]
  rw [if_neg (by simp), if_pos ⟨by omega, trivial⟩]

/-! ### Colouring -/

def EscapeFree (s : String) : Prop := escape ∉ s.toList

instance (s : String) : Decidable (EscapeFree s) := by unfold EscapeFree; infer_instance

/- The second text is the first one without its sequences, and has no escape character. -/
inductive Colored : List Char → List Char → Prop where
  | nil : Colored [] []
  | char {c cs ds} (other : c ≠ escape) (tail : Colored cs ds) : Colored (c :: cs) (c :: ds)
  | sequence {code cs ds} (filled : code ≠ []) (digits : ∀ d ∈ code, d.isDigit = true)
      (tail : Colored cs ds) : Colored (escape :: '[' :: (code ++ 'm' :: cs)) ds

theorem coloredStrip {cs ds : List Char} (colored : Colored cs ds) : stripFrom [] cs = ds := by
  induction colored with
  | nil => rfl
  | char other tail ih => rw [stripChar other, ih]
  | sequence filled digits tail ih => rw [stripSequence filled digits, ih]

theorem coloredAppend {as bs cs ds : List Char} (head : Colored as bs) (tail : Colored cs ds) :
    Colored (as ++ cs) (bs ++ ds) := by
  induction head with
  | nil => exact tail
  | char other _ ih => exact .char other ih
  | sequence filled digits _ ih => simpa using Colored.sequence filled digits ih

theorem coloredSelf {cs : List Char} (free : escape ∉ cs) : Colored cs cs := by
  induction cs with
  | nil => exact .nil
  | cons c cs ih =>
    rw [List.mem_cons, not_or] at free
    exact .char (fun same => free.1 same.symm) (ih free.2)

theorem coloredFlatMap {α : Type} {f g : α → List Char} {xs : List α}
    (colored : ∀ x ∈ xs, Colored (f x) (g x)) : Colored (xs.flatMap f) (xs.flatMap g) := by
  induction xs with
  | nil => exact .nil
  | cons x xs ih =>
    rw [List.flatMap_cons, List.flatMap_cons]
    exact coloredAppend (colored x (by simp)) (ih fun y member => colored y (by simp [member]))

theorem sgrColored {code : String} (filled : code.toList ≠ [])
    (digits : code.toList.all Char.isDigit = true) : Colored (sgr code).toList [] := by
  have begins : "\x1b[".toList = [escape, '['] := rfl
  have ends : "m".toList = ['m'] := rfl
  have whole := Colored.sequence filled (List.all_eq_true.mp digits) .nil
  simpa [sgr, begins, ends] using whole

theorem paintColored (a : Attribute) {s t : String} (inner : Colored s.toList t.toList) :
    Colored (paint a s).toList t.toList := by
  have on : Colored (sgr a.on).toList [] := by cases a <;> exact sgrColored (by decide) (by decide)
  have off : Colored (sgr a.off).toList [] := by
    cases a <;> exact sgrColored (by decide) (by decide)
  have whole := coloredAppend on (coloredAppend inner off)
  simpa [paint] using whole

theorem inkColored (as : List Attribute) {s : String} (free : EscapeFree s) :
    Colored (ink true as s).toList (ink false as s).toList := by
  induction as with
  | nil => exact coloredSelf free
  | cons a as ih => exact paintColored a ih

theorem strippedInk (colors : Bool) (as : List Attribute) {s : String} (free : EscapeFree s) :
    strip (ink colors as s) = s := by
  have colored : Colored (ink colors as s).toList s.toList := by
    cases colors with
    | false => exact coloredSelf free
    | true => exact inkColored as free
  rw [strip, coloredStrip colored, String.ofList_toList]

/-! ### Trimming -/

/- Behind the last sequence there is something visible, and then the same end. -/
inductive Tailed : List Char → List Char → Prop where
  | behind {cs ds tail} (head : Colored cs ds) (colored : Solid cs) (plain : Solid ds)
      (free : escape ∉ tail) : Tailed (cs ++ tail) (ds ++ tail)

theorem tailedColored {cs ds : List Char} (tailed : Tailed cs ds) : Colored cs ds := by
  cases tailed with
  | behind head _ _ free => exact coloredAppend head (coloredSelf free)

theorem tailedBehind {as bs cs ds : List Char} (before : Colored as bs) (tailed : Tailed cs ds) :
    Tailed (as ++ cs) (bs ++ ds) := by
  cases tailed with
  | behind head colored plain free =>
    rw [← List.append_assoc, ← List.append_assoc]
    exact .behind (coloredAppend before head) (solidBehind colored _) (solidBehind plain _) free

theorem tailedFlatMap {α : Type} {f g : α → List Char} {xs : List α} (filled : xs ≠ [])
    (tailed : ∀ x ∈ xs, Tailed (f x) (g x)) : Tailed (xs.flatMap f) (xs.flatMap g) := by
  induction xs with
  | nil => contradiction
  | cons x xs ih =>
    have head := tailed x (by simp)
    rw [List.flatMap_cons, List.flatMap_cons]
    by_cases last : xs = []
    · subst xs
      simpa using head
    · exact tailedBehind (tailedColored head) (ih last fun y member => tailed y (by simp [member]))

/- Texts that are still one coloured and the other not when their ends have been trimmed. -/
structure Trimmed (s t : String) : Prop where
  colored : Colored (trimEnd s).toList (trimEnd t).toList
  blank : trimEnd s = "" ↔ trimEnd t = ""

theorem freeTrimmed {s : String} (free : EscapeFree s) : Trimmed s s := by
  refine ⟨coloredSelf ?_, Iff.rfl⟩
  rw [trimEnd, String.toList_ofList]
  exact fun member => free (trimSubset member)

theorem tailedTrimmed {s t : String} (tailed : Tailed s.toList t.toList) : Trimmed s t := by
  generalize start : s.toList = cs at tailed
  generalize same : t.toList = ds at tailed
  cases tailed with
  | @behind cs ds tail head colored plain free =>
    have kept : escape ∉ dropEndWhile isBlank tail := fun member => free (trimSubset member)
    have filled : ∀ {es : List Char}, Solid es → ∀ rest, es ++ rest ≠ [] := by
      rintro _ ⟨init, c, rfl, _⟩ rest
      simp
    refine ⟨?_, ?_⟩
    · rw [trimEnd, trimEnd, String.toList_ofList, String.toList_ofList, start, same,
        trimBehind colored, trimBehind plain]
      exact coloredAppend head (coloredSelf kept)
    · rw [trimEnd, trimEnd, String.ofList_eq_empty_iff, String.ofList_eq_empty_iff, start, same,
        trimBehind colored, trimBehind plain]
      exact iff_of_false (filled colored _) (filled plain _)

end LintGate.Text
