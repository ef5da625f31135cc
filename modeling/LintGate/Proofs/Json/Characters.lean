import Mathlib.Data.Bool.AllAny
import LintGate.Proofs.Json.Scanning
/-! The characters of which a text in the grammar is made. Control characters are not among them,
but for those that count as spaces: inside quotes they can only be escaped. -/
namespace LintGate.Json.Grammar

def Visible (c : Char) : Prop := 0x20 ≤ c.toNat ∨ c = '\t' ∨ c = '\n' ∨ c = '\r'

instance (c : Char) : Decidable (Visible c) := by unfold Visible; infer_instance

theorem spacesVisible {cs} (h : Spaces cs) : ∀ c ∈ cs, Visible c := by
  intro c member
  rcases h c member with rfl | space
  · decide
  · exact .inr space

theorem markVisible {c : Char} (marked : Json.Number.mark c = true) : Visible c := by
  by_cases low : 0x20 ≤ c.toNat
  · exact .inl low
  · have small : c.toNat < 0x20 := Nat.lt_of_not_le low
    have none : ∀ n, n < 0x20 → Json.Number.mark (Char.ofNat n) = false := by decide
    have unmarked := none c.toNat small
    rw [Char.ofNat_toNat, marked] at unmarked
    contradiction

theorem hexVisible {n : Nat} {c : Char} (h : HexDigit n c) : Visible c := by
  obtain ⟨small, rfl | rfl⟩ := h
  · revert n; decide
  · revert n; decide

theorem hex4Visible {n ds} (h : Hex4 n ds) : ∀ c ∈ ds, Visible c := by
  cases h with
  | digits first second third fourth =>
    simp only [List.mem_cons, List.not_mem_nil, or_false]
    rintro c (rfl | rfl | rfl | rfl)
    · exact hexVisible first
    · exact hexVisible second
    · exact hexVisible third
    · exact hexVisible fourth

theorem shortVisible : ∀ e ∈ shortEscapes, Visible e.2 := by decide

theorem literalVisible {cs} (h : Literal cs) : ∀ c ∈ cs, Visible c := by
  induction h with
  | nil => simp
  | itself plain tail ih => exact List.forall_mem_cons.mpr ⟨.inl plain.1, ih⟩
  | short listed tail ih =>
    exact List.forall_mem_cons.mpr
      ⟨by decide, List.forall_mem_cons.mpr ⟨shortVisible _ listed, ih⟩⟩
  | unit hex tail ih =>
    exact List.forall_mem_cons.mpr ⟨by decide, List.forall_mem_cons.mpr
      ⟨by decide, List.forall_mem_append.mpr ⟨hex4Visible hex, ih⟩⟩⟩

/- Whatever spells a text may stand between quotes. -/
theorem contentLiteral {s cs} (h : Content s cs) : Literal cs := by
  induction h with
  | nil => exact .nil
  | cons head tail ih =>
    cases head with
    | itself plain => exact .itself plain ih
    | short listed => exact .short listed ih
    | unit hex => exact .unit hex ih
    | pair above high low => simpa using Literal.unit high (.unit low ih)

theorem quotedVisible {cs} (h : Literal cs) : ∀ c ∈ quoted cs, Visible c :=
  List.forall_mem_cons.mpr
    ⟨by decide, List.forall_mem_append.mpr ⟨literalVisible h, by simp; decide⟩⟩

theorem keyVisible {k ks} (h : Key k ks) : ∀ c ∈ quoted ks, Visible c := by
  cases h with
  | text content => exact quotedVisible (contentLiteral content)
  | illFormed none => exact quotedVisible none.1

theorem bracketsVisible {opening closing : Char} {cs : List Char} (first : Visible opening)
    (last : Visible closing) (inside : ∀ c ∈ cs, Visible c) :
    ∀ c ∈ opening :: (cs ++ [closing]), Visible c :=
  List.forall_mem_cons.mpr ⟨first, List.forall_mem_append.mpr ⟨inside, by simpa using last⟩⟩

theorem spellsVisible {phrase : Phrase} {cs} (h : Spells phrase cs) : ∀ c ∈ cs, Visible c := by
  induction h with
  | null | yes | no => exact List.all_iff_forall_prop.mp (by decide)
  | number h => exact fun c member => markVisible (Json.Number.grammarMarks h c member)
  | text content => exact quotedVisible (contentLiteral content)
  | illFormed none => exact quotedVisible none.1
  | emptyArray inside | emptyObject inside =>
    exact bracketsVisible (by decide) (by decide) (spacesVisible inside)
  | array h ih | object h ih => exact bracketsVisible (by decide) (by decide) ih
  | spaced before h after ih =>
    exact List.forall_mem_append.mpr
      ⟨spacesVisible before, List.forall_mem_append.mpr ⟨ih, spacesVisible after⟩⟩
  | lastItem h ih | lastMember h ih => exact ih
  | item head tail first rest | moreMembers head tail first rest =>
    exact List.forall_mem_append.mpr ⟨first, List.forall_mem_cons.mpr ⟨by decide, rest⟩⟩
  | member before key after h ih =>
    exact List.forall_mem_append.mpr ⟨spacesVisible before, List.forall_mem_append.mpr
      ⟨keyVisible key, List.forall_mem_append.mpr
        ⟨spacesVisible after, List.forall_mem_cons.mpr ⟨by decide, ih⟩⟩⟩⟩

end LintGate.Json.Grammar
