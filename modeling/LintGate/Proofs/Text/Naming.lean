import LintGate.Proofs.Text.Trimming
/-! Names that are chosen from a list. White space around a text and the case of its ASCII letters
do not keep it from being one of them, and nothing else is passed over. -/
namespace LintGate.Text

/- The text is the name, up to white space around it and the case of ASCII letters. -/
def Names (name text : String) : Prop :=
  ∃ before word after, text.toList = before ++ (word ++ after) ∧
    (∀ c ∈ before, isBlank c = true) ∧ (∀ c ∈ after, isBlank c = true) ∧
    word.map Char.toLower = name.toList.map Char.toLower

/- Small letters alone. -/
def Plain (name : String) : Prop := ∀ c ∈ name.toList, 97 ≤ c.toNat ∧ c.toNat ≤ 122

variable {name text : String} {before word after : List Char}

theorem letterVisible {c : Char} (least : 65 ≤ c.toNat) (most : c.toNat ≤ 122) :
    isBlank c = false := by
  unfold isBlank
  simp only [Bool.or_eq_false_iff, Bool.and_eq_false_iff, decide_eq_false_iff_not,
    beq_eq_false_iff_ne]
  omega

theorem lowerBlank (c : Char) : isBlank c.toLower = isBlank c := by
  unfold Char.toLower
  split
  · rename_i capital
    obtain ⟨least, most⟩ := capital
    have least : 65 ≤ c.toNat := UInt32.le_iff_toNat_le.mp least
    have most : c.toNat ≤ 90 := UInt32.le_iff_toNat_le.mp most
    have lowered : (c.val + ('a'.val - 'A'.val)).toNat = c.toNat + 32 := by
      rw [UInt32.toNat_add]
      show (c.toNat + 32) % 2 ^ 32 = _
      omega
    have small : isBlank c = false := letterVisible least (by omega)
    rw [small]
    refine letterVisible ?_ ?_
    · rw [Char.toNat, lowered]
      omega
    · rw [Char.toNat, lowered]
      omega
  · rfl

theorem smallLower {c : Char} (small : 97 ≤ c.toNat) : c.toLower = c := by
  refine dif_neg ?_
  rintro ⟨_, most⟩
  have most : c.toNat ≤ 90 := UInt32.le_iff_toNat_le.mp most
  omega

theorem plainLower (plain : Plain name) : name.toList.map Char.toLower = name.toList := by
  have same : name.toList.map Char.toLower = name.toList.map id :=
    List.map_congr_left fun c member => smallLower (plain c member).1
  rw [same, List.map_id]

/- A word without white space is what a trim leaves of it. -/
theorem trimWord (blank : ∀ c ∈ before, isBlank c = true) (blank' : ∀ c ∈ after, isBlank c = true)
    (visible : ∀ c ∈ word, isBlank c = false) :
    trim (String.ofList (before ++ (word ++ after))) = String.ofList word := by
  rw [trim, trimEnd, trimStart, String.toList_ofList, String.toList_ofList,
    List.dropWhile_append_of_pos blank]
  congr 1
  cases word with
  | nil =>
    rw [List.nil_append, dropWhileNone.mpr (List.all_eq_true.mpr blank')]
    rfl
  | cons c cs =>
    have first := visible c List.mem_cons_self
    rw [List.cons_append, List.dropWhile_cons_of_neg (by simp [first]), ← List.cons_append,
      trimBlankEnd blank', trimKeeps (List.cons_ne_nil c cs)]
    obtain ⟨init, d, split⟩ := lastSplit (List.cons_ne_nil c cs)
    exact ⟨init, d, split, visible d (by rw [split]; simp)⟩

theorem namesFolded (plain : Plain name) : folded text = name ↔ Names name text := by
  constructor
  · intro same
    obtain ⟨before, after, split, blank, blank', _⟩ := trimSplit text
    refine ⟨before, (trim text).toList, after, split, blank, blank', ?_⟩
    rw [plainLower plain, ← same, folded, asciiLower, String.toList_ofList]
  · rintro ⟨before, word, after, split, blank, blank', same⟩
    rw [plainLower plain] at same
    have visible : ∀ c ∈ word, isBlank c = false := by
      intro c member
      have lower : c.toLower ∈ name.toList := same ▸ List.mem_map_of_mem member
      obtain ⟨least, most⟩ := plain _ lower
      rw [← lowerBlank]
      exact letterVisible (by omega) most
    rw [folded, ← String.ofList_toList (s := text), split, trimWord blank blank' visible,
      asciiLower, String.toList_ofList, same, String.ofList_toList]

/-! ### Lists of names -/

/- A text is read as what it names, where the names of the list are plain and no two are alike. -/
theorem namedFound {α : Type} {name : α → String} {all : List α} (every : ∀ a, a ∈ all)
    (apart : ∀ a b, name a = name b → a = b) (plain : ∀ a, Plain (name a)) {a : α} :
    all.find? (fun x => name x == folded text) = some a ↔ Names (name a) text := by
  rw [← namesFolded (plain a)]
  constructor
  · intro found
    have same := List.find?_some found
    exact (beq_iff_eq.mp same).symm
  · intro same
    rw [same]
    cases found : all.find? fun x => name x == name a with
    | none => simpa using List.find?_eq_none.mp found a (every a)
    | some b =>
      have named := List.find?_some found
      rw [apart b a (beq_iff_eq.mp named)]

end LintGate.Text
