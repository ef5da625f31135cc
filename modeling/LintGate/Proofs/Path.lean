import LintGate.Path
/-! Where the characters of a displayed path come from. -/
namespace LintGate.Path

theorem splitChars {cs part : List Char} (member : part ∈ splitSlashes cs) :
    ∀ c ∈ part, c ∈ cs := by
  induction cs generalizing part with
  | nil =>
    obtain rfl := List.mem_singleton.mp member
    simp
  | cons d cs ih =>
    intro c inside
    unfold splitSlashes at member
    split at member
    · rcases List.mem_cons.mp member with rfl | later
      · contradiction
      · exact List.mem_cons_of_mem d (ih later c inside)
    · split at member
      · obtain rfl := List.mem_singleton.mp member
        exact List.mem_cons.mpr (.inl (List.mem_singleton.mp inside))
      · rename_i first rest parted
        rcases List.mem_cons.mp member with rfl | later
        · rcases List.mem_cons.mp inside with rfl | inside
          · exact List.mem_cons_self
          · exact List.mem_cons_of_mem d (ih (by rw [parted]; exact List.mem_cons_self) c inside)
        · exact List.mem_cons_of_mem d
            (ih (by rw [parted]; exact List.mem_cons_of_mem _ later) c inside)

theorem componentChars {path part : String} (member : part ∈ components path) :
    ∀ c ∈ part.toList, c ∈ path.toList := by
  obtain ⟨chars, split, rfl⟩ := List.mem_map.mp (List.mem_filter.mp member).1
  rw [String.toList_ofList]
  exact splitChars split

theorem joinChars {parts : List String} {c : Char} (member : c ∈ (join parts).toList) :
    c = '/' ∨ ∃ part ∈ parts, c ∈ part.toList := by
  have slash : "/".toList = ['/'] := rfl
  induction parts with
  | nil => simp [join] at member
  | cons part parts ih =>
    cases parts with
    | nil => exact .inr ⟨part, by simp, by simpa [join] using member⟩
    | cons next rest =>
      rw [join, String.intercalate_cons_cons, String.toList_append, String.toList_append, slash]
        at member
      rcases List.mem_append.mp member with front | last
      · rcases List.mem_append.mp front with head | separator
        · exact .inr ⟨part, by simp, head⟩
        · exact .inl (List.mem_singleton.mp separator)
      · rcases ih last with same | ⟨other, there, inside⟩
        · exact .inl same
        · exact .inr ⟨other, List.mem_cons_of_mem _ there, inside⟩

/- Nothing is shown but slashes and characters of the file. -/
theorem shownChars {directory file : String} {c : Char}
    (member : c ∈ (shown directory file).toList) : c = '/' ∨ c ∈ file.toList := by
  unfold shown at member
  split at member
  · split at member
    · exact .inr member
    · rename_i rest below
      split at member
      · exact .inr member
      · rcases joinChars member with slash | ⟨part, there, inside⟩
        · exact .inl slash
        · have component : part ∈ components file := by
            rw [appendBeyond below]
            exact List.mem_append_right _ there
          exact .inr (componentChars component c inside)
  · exact .inr member

end LintGate.Path
