import LintGate.Text.Layout
/-! Padded cells. All cells of a column come to the same width, that of the widest of them. -/
namespace LintGate.Text

variable {cells : List String} {width : Nat} {s : String}

theorem spacesLength (n : Nat) : (spaces n).length = n := by
  rw [spaces, String.length_ofList, List.length_replicate]

theorem spacesTogether (m n : Nat) : spaces m ++ spaces n = spaces (m + n) := by
  rw [spaces, spaces, spaces, ← String.ofList_append, List.replicate_append_replicate]

theorem padStartLength (fits : s.length ≤ width) : (padStart width s).length = width := by
  rw [padStart, String.length_append, spacesLength]
  omega

theorem padEndLength (fits : s.length ≤ width) : (padEnd width s).length = width := by
  rw [padEnd, String.length_append, spacesLength]
  omega

theorem longestAttained (lengths : List Nat) (n : Nat) :
    lengths.foldl max n = n ∨ lengths.foldl max n ∈ lengths := by
  induction lengths generalizing n with
  | nil => exact .inl rfl
  | cons k lengths ih =>
    rw [List.foldl_cons]
    rcases ih (max n k) with start | later
    · rw [start]
      rcases Nat.le_total n k with less | more
      · exact .inr (by simp [Nat.max_eq_right less])
      · exact .inl (Nat.max_eq_left more)
    · exact .inr (List.mem_cons_of_mem k later)

theorem widestAttained (filled : cells ≠ []) : ∃ cell ∈ cells, cell.length = widest cells := by
  rcases longestAttained (cells.map String.length) 0 with none | some
  · -- All cells are empty then, and so is the first one.
    obtain ⟨cell, rest, rfl⟩ := List.exists_cons_of_ne_nil filled
    have bound := widestBound (List.mem_cons_self (a := cell) (l := rest))
    refine ⟨cell, List.mem_cons_self, ?_⟩
    rw [widest, none] at bound ⊢
    omega
  · obtain ⟨cell, member, width⟩ := List.mem_map.mp some
    exact ⟨cell, member, width⟩

end LintGate.Text
