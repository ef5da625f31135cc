import LintGate.Text.Blank
/-! White space at the ends of a text. What a trim takes away is blank, and what it leaves begins
and ends in something visible, if there is anything visible at all. -/
namespace LintGate.Text

theorem lastSplit {cs : List Char} (filled : cs ≠ []) : ∃ init c, cs = init ++ [c] :=
  ⟨_, _, (List.dropLast_concat_getLast filled).symm⟩

def Solid (cs : List Char) : Prop := ∃ init c, cs = init ++ [c] ∧ isBlank c = false

theorem solidBehind {cs : List Char} (solid : Solid cs) (before : List Char) :
    Solid (before ++ cs) := by
  obtain ⟨init, c, rfl, visible⟩ := solid
  exact ⟨before ++ init, c, (List.append_assoc ..).symm, visible⟩

theorem trimBehind {cs : List Char} (solid : Solid cs) (tail : List Char) :
    dropEndWhile isBlank (cs ++ tail) = cs ++ dropEndWhile isBlank tail := by
  obtain ⟨init, c, rfl, visible⟩ := solid
  rw [dropEndWhile, List.reverse_append, List.dropWhile_append]
  split
  · rename_i blank
    have nothing : dropEndWhile isBlank tail = [] := by
      rw [dropEndWhile, List.isEmpty_iff.mp blank, List.reverse_nil]
    rw [nothing, List.append_nil]
    exact dropEndWhileLast isBlank init c visible
  · rw [List.reverse_append, List.reverse_reverse, dropEndWhile]

theorem trimSubset {p : Char → Bool} {cs : List Char} {c : Char} (member : c ∈ dropEndWhile p cs) :
    c ∈ cs := by
  rw [dropEndWhile, List.mem_reverse] at member
  exact List.mem_reverse.mp (List.dropWhile_subset p member)

theorem solidLast {cs : List Char} {c : Char} : Solid (cs ++ [c]) ↔ isBlank c = false := by
  constructor
  · rintro ⟨init, d, same, visible⟩
    obtain ⟨_, last⟩ := List.append_inj' same rfl
    cases last
    exact visible
  · exact fun visible => ⟨cs, c, rfl, visible⟩

theorem solidFilled {cs ds : List Char} (filled : ds ≠ []) : Solid (cs ++ ds) ↔ Solid ds := by
  obtain ⟨init, c, rfl⟩ := lastSplit filled
  rw [← List.append_assoc, solidLast, solidLast]

theorem trimShortens (cs : List Char) : (dropEndWhile isBlank cs).length ≤ cs.length := by
  have kept : (cs.reverse.dropWhile isBlank).length ≤ cs.reverse.length :=
    (List.dropWhile_suffix isBlank).length_le
  simpa [dropEndWhile] using kept

/- A text that is not empty keeps its end exactly if that is visible. -/
theorem trimKeeps {cs : List Char} (filled : cs ≠ []) :
    dropEndWhile isBlank cs = cs ↔ Solid cs := by
  obtain ⟨init, c, rfl⟩ := lastSplit filled
  rw [solidLast]
  cases blank : isBlank c with
  | false => simpa using dropEndWhileLast isBlank init c blank
  | true =>
    rw [dropEndWhileSkip isBlank init c blank]
    refine iff_of_false ?_ (by simp)
    intro same
    have shorter := trimShortens init
    rw [same, List.length_append] at shorter
    exact absurd shorter (by simp)

/- Something visible is left at the end, if there was anything visible at all. -/
theorem trimSolid {cs : List Char} {c : Char} (member : c ∈ cs) (visible : isBlank c = false) :
    Solid (dropEndWhile isBlank cs) := by
  have filled : cs.reverse.dropWhile isBlank ≠ [] := by
    intro nothing
    have blank := List.all_eq_true.mp (dropWhileNone.mp nothing) c (List.mem_reverse.mpr member)
    rw [visible] at blank
    contradiction
  obtain ⟨d, rest, shape⟩ := List.exists_cons_of_ne_nil filled
  have last := List.head_dropWhile_not isBlank filled
  simp only [shape, List.head_cons] at last
  exact ⟨rest.reverse, d, by rw [dropEndWhile, shape, List.reverse_cons], last⟩

theorem endSplit (cs : List Char) : ∃ after, cs = dropEndWhile isBlank cs ++ after ∧
    ∀ c ∈ after, isBlank c = true := by
  refine ⟨(cs.reverse.takeWhile isBlank).reverse, ?_, ?_⟩
  · rw [dropEndWhile, ← List.reverse_append, List.takeWhile_append_dropWhile, List.reverse_reverse]
  · intro c member
    exact List.all_eq_true.mp List.all_takeWhile c (List.mem_reverse.mp member)

/- White space behind a text makes no difference to what is left of its end. -/
theorem trimBlankEnd {cs after : List Char} (blank : ∀ c ∈ after, isBlank c = true) :
    dropEndWhile isBlank (cs ++ after) = dropEndWhile isBlank cs := by
  have back : ∀ c ∈ after.reverse, isBlank c = true :=
    fun c member => blank c (List.mem_reverse.mp member)
  rw [dropEndWhile, List.reverse_append, List.dropWhile_append_of_pos back, dropEndWhile]

theorem trimSplit (s : String) : ∃ before after,
    s.toList = before ++ ((trim s).toList ++ after) ∧
      (∀ c ∈ before, isBlank c = true) ∧ (∀ c ∈ after, isBlank c = true) ∧
      ∀ c ∈ (trim s).toList.head?, isBlank c = false := by
  obtain ⟨after, split, blank⟩ := endSplit (s.toList.dropWhile isBlank)
  have kept : (trim s).toList = dropEndWhile isBlank (s.toList.dropWhile isBlank) := by
    rw [trim, trimEnd, trimStart, String.toList_ofList, String.toList_ofList]
  refine ⟨s.toList.takeWhile isBlank, after, ?_, ?_, blank, ?_⟩
  · rw [kept, ← split, List.takeWhile_append_dropWhile]
  · exact fun c member => List.all_eq_true.mp List.all_takeWhile c member
  · intro c first
    obtain ⟨rest, shape⟩ : ∃ rest, s.toList.dropWhile isBlank = c :: rest := by
      rw [kept] at first
      obtain ⟨tail, shape⟩ := List.head?_eq_some_iff.mp first
      exact ⟨tail ++ after, by rw [split, shape, List.cons_append]⟩
    have visible := List.head_dropWhile_not isBlank (l := s.toList) (by rw [shape]; simp)
    simpa only [shape, List.head_cons] using visible

end LintGate.Text
