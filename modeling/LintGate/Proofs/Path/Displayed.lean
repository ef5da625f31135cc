import LintGate.Proofs.Path
import LintGate.Proofs.Text.Lines
/-! Displayed paths. What is shown in place of an absolute file is the way to it from the working
directory, if that way only leads down: the components behind those of the directory. -/
namespace LintGate.Path
open Text (Lacks)

/-! ### Components -/

theorem splitFilled (cs : List Char) : splitSlashes cs ≠ [] := by
  cases cs with
  | nil => simp [splitSlashes]
  | cons c cs =>
    unfold splitSlashes
    split
    · simp
    · split <;> simp

theorem splitApart {cs part : List Char} (member : part ∈ splitSlashes cs) : '/' ∉ part := by
  induction cs generalizing part with
  | nil =>
    obtain rfl := List.mem_singleton.mp member
    exact List.not_mem_nil
  | cons c cs ih =>
    unfold splitSlashes at member
    split at member
    · rcases List.mem_cons.mp member with rfl | later
      · exact List.not_mem_nil
      · exact ih later
    · rename_i other
      split at member
      · rename_i none
        exact absurd none (splitFilled cs)
      · rename_i first rest parted
        rcases List.mem_cons.mp member with rfl | later
        · rw [List.mem_cons, not_or]
          exact ⟨Ne.symm other, ih (by rw [parted]; exact List.mem_cons_self)⟩
        · exact ih (by rw [parted]; exact List.mem_cons_of_mem _ later)

theorem splitWhole {part : List Char} (whole : '/' ∉ part) : splitSlashes part = [part] := by
  induction part with
  | nil => rfl
  | cons c part ih =>
    rw [List.mem_cons, not_or] at whole
    rw [splitSlashes, if_neg (Ne.symm whole.1), ih whole.2]

theorem splitFirst {part : List Char} (whole : '/' ∉ part) (rest : List Char) :
    splitSlashes (part ++ '/' :: rest) = part :: splitSlashes rest := by
  induction part with
  | nil => simp [splitSlashes]
  | cons c part ih =>
    rw [List.mem_cons, not_or] at whole
    rw [List.cons_append, splitSlashes, if_neg (Ne.symm whole.1), ih whole.2]

/- A part that names something. -/
structure Names (part : String) : Prop where
  filled : part ≠ ""
  further : part ≠ "."
  whole : Lacks '/' part

variable {directory file path : String} {ps : List String}

theorem componentNames : ∀ part ∈ components path, Names part := by
  intro part member
  obtain ⟨there, names⟩ := List.mem_filter.mp member
  obtain ⟨chars, split, rfl⟩ := List.mem_map.mp there
  obtain ⟨filled, further⟩ := of_decide_eq_true names
  refine ⟨filled, further, ?_⟩
  rw [Lacks, String.toList_ofList]
  exact splitApart split

theorem partsJoin (filled : ps ≠ []) (whole : ∀ part ∈ ps, Lacks '/' part) :
    parts (join ps) = ps := by
  have slash : "/".toList = ['/'] := rfl
  induction ps with
  | nil => contradiction
  | cons part ps ih =>
    obtain ⟨first, rest⟩ := List.forall_mem_cons.mp whole
    cases ps with
    | nil => simp [parts, join, splitWhole first]
    | cons next ps =>
      have more := ih (List.cons_ne_nil next ps) rest
      rw [parts, join] at more ⊢
      rw [String.intercalate_cons_cons, String.toList_append, String.toList_append, slash,
        List.append_assoc, List.singleton_append, splitFirst first, List.map_cons, more,
        String.ofList_toList]

theorem componentsJoin (names : ∀ part ∈ ps, Names part) : components (join ps) = ps := by
  by_cases empty : ps = []
  · subst empty
    rfl
  · rw [components, partsJoin empty fun part member => (names part member).whole,
      List.filter_eq_self]
    intro part member
    have named := names part member
    exact decide_eq_true ⟨named.filled, named.further⟩

theorem joinRelative (names : ∀ part ∈ ps, Names part) : isAbsolute (join ps) = false := by
  cases ps with
  | nil => rfl
  | cons part ps =>
    obtain ⟨filled, _, whole⟩ := names part List.mem_cons_self
    obtain ⟨c, cs, shape⟩ := List.exists_cons_of_ne_nil
      (fun none => filled (String.toList_eq_nil_iff.mp none))
    have other : c ≠ '/' := by
      rintro rfl
      exact whole (by rw [shape]; exact List.mem_cons_self)
    have first : (join (part :: ps)).toList.head? = some c := by
      cases ps with
      | nil => simp [join, shape]
      | cons next ps =>
        rw [join, String.intercalate_cons_cons, String.toList_append, String.toList_append, shape]
        rfl
    simp [isAbsolute, first, other]

/-! ### The way from the directory -/

/- From a directory to a file, both by their components. Once the two part, the way leads up out of
every component that is left of the directory; there is no telling the way up out of a `..`. -/
def way? : (file directory : List String) → Option (List String)
  | file, [] => some file
  | [], d :: directory => some ((d :: directory).map fun _ => "..")
  | f :: file, d :: directory =>
      if f = d then way? file directory
      else if d = ".." then none
      else some ((d :: directory).map (fun _ => "..") ++ f :: file)

/- A way is shown if there is one and it does not begin by leading up. -/
def along (file : String) (way : Option (List String)) : String :=
  match way with
  | none => file
  | some way => if way.head? = some ".." then file else join way

theorem alongWay (file : String) (ds fs : List String) :
    along file (beyond? ds fs) = along file (way? fs ds) := by
  induction ds generalizing fs with
  | nil => cases fs <;> rfl
  | cons d ds ih =>
    cases fs with
    | nil => rfl
    | cons f fs =>
      rw [beyond?, way?]
      by_cases same : f = d
      · rw [if_pos same, if_pos same.symm, ih]
      · rw [if_neg same, if_neg (Ne.symm same)]
        split <;> rfl

theorem shownBeyond (absolute : isAbsolute file = true) :
    shown directory file = along file (beyond? (components directory) (components file)) := by
  rw [shown, if_pos absolute]
  rfl

theorem shownAlong (absolute : isAbsolute file = true) :
    shown directory file = along file (way? (components file) (components directory)) := by
  rw [shownBeyond absolute, alongWay]

/-! ### What is shown -/

/- The text leads from the directory to the file, and is spelt without anything superfluous. -/
structure Leads (directory file text : String) : Prop where
  relative : isAbsolute text = false
  below : (components text).head? ≠ some ".."
  whole : components directory ++ components text = components file
  bare : join (components text) = text

theorem relativeShown (relative : isAbsolute file = false) : shown directory file = file := by
  rw [shown, relative]
  rfl

theorem shownLeads (other : shown directory file ≠ file) :
    Leads directory file (shown directory file) := by
  have absolute : isAbsolute file = true := by
    rw [← Bool.not_eq_false]
    exact fun relative => other (relativeShown relative)
  rw [shownBeyond absolute] at other ⊢
  cases found : beyond? (components directory) (components file) with
  | none =>
    rw [found] at other
    contradiction
  | some rest =>
    have below : rest.head? ≠ some ".." := by
      intro up
      refine other ?_
      rw [found, along, if_pos up]
    have whole := appendBeyond found
    have names : ∀ part ∈ rest, Names part := fun part member =>
      componentNames part (whole ▸ List.mem_append_right _ member)
    rw [along, if_neg below]
    refine ⟨joinRelative names, ?_, ?_, ?_⟩
    · rwa [componentsJoin names]
    · rw [componentsJoin names, whole]
    · rw [componentsJoin names]

/- How one file is shown. -/
structure Denotes (directory file : String) : Prop where
  relative : isAbsolute file = false → shown directory file = file
  absolute : isAbsolute file = true →
    shown directory file = along file (way? (components file) (components directory))
  changed : isAbsolute file = true → shown directory file ≠ file →
    Leads directory file (shown directory file)
  again : shown directory (shown directory file) = shown directory file

theorem shownAgain (directory file : String) :
    shown directory (shown directory file) = shown directory file := by
  by_cases same : shown directory file = file
  · rw [same, same]
  · exact relativeShown (shownLeads same).relative

theorem sameShown {a b : String} (first : isAbsolute a = true) (second : isAbsolute b = true)
    (alike : shown directory a = shown directory b) : components a = components b := by
  by_cases kept : shown directory a = a
  · by_cases kept' : shown directory b = b
    · rw [← kept, alike, kept']
    · have relative := (shownLeads kept').relative
      rw [← alike, kept, first] at relative
      contradiction
  · have leads := shownLeads kept
    by_cases kept' : shown directory b = b
    · have relative := leads.relative
      rw [alike, kept', second] at relative
      contradiction
    · rw [← leads.whole, alike, (shownLeads kept').whole]

theorem shownDenotes (directory : String) :
    (∀ file, Denotes directory file) ∧
      ∀ a b, isAbsolute a = true → isAbsolute b = true → shown directory a = shown directory b →
        components a = components b := by
  refine ⟨fun file => ?_, fun a b first second => sameShown first second⟩
  exact ⟨relativeShown, shownAlong, fun _ other => shownLeads other, shownAgain directory file⟩

theorem shownDenotesSample :
    let file := "/work//web/./app.js/"
    isAbsolute file = true ∧ shown "/work" file ≠ file ∧
      Leads "/work" file (shown "/work" file) ∧
      isAbsolute "/work/web/app.js" = true ∧
      shown "/work" file = shown "/work" "/work/web/app.js" ∧
      components file = components "/work/web/app.js" := by
  intro file
  have other : shown "/work" file ≠ file := by decide
  have alike : shown "/work" file = shown "/work" "/work/web/app.js" := by decide
  have absolute : isAbsolute file = true := by decide
  have absolute' : isAbsolute "/work/web/app.js" = true := by decide
  obtain ⟨each, together⟩ := shownDenotes "/work"
  exact ⟨absolute, other, (each file).changed absolute other, absolute', alike,
    together _ _ absolute absolute' alike⟩

/- A sibling whose name goes on, a way that leads up again, and the root as the directory. -/
example : shown "/work" "/workshop/a.js" = "/workshop/a.js" ∧
    shown "/work" "/work/../a.js" = "/work/../a.js" ∧
    shown "/" "//a/../b.js" = "a/../b.js" := by decide

end LintGate.Path
