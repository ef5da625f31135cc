import LintGate.Text.Decimal
/-! Counted nouns, padded cells and lines. Widths are numbers of code points. -/
namespace LintGate.Text

/- The noun takes an `s` unless there is exactly one. -/
def plural (n : Nat) (noun : String) : String :=
  decimal n ++ " " ++ (if n = 1 then noun else noun ++ "s")

def spaces (n : Nat) : String := String.ofList (List.replicate n ' ')

def padStart (width : Nat) (s : String) : String := spaces (width - s.length) ++ s

def padEnd (width : Nat) (s : String) : String := s ++ spaces (width - s.length)

/- The least width that holds every cell; 0 for none. -/
def widest (cells : List String) : Nat := (cells.map String.length).foldl max 0

theorem longestFrom (lengths : List Nat) (n : Nat) :
    n ≤ lengths.foldl max n ∧ ∀ m ∈ lengths, m ≤ lengths.foldl max n := by
  induction lengths generalizing n with
  | nil => simp
  | cons k lengths ih =>
    obtain ⟨start, rest⟩ := ih (max n k)
    rw [List.foldl_cons]
    refine ⟨by omega, ?_⟩
    intro m member
    rcases List.mem_cons.mp member with rfl | later
    · omega
    · exact rest m later

theorem widestBound {cells : List String} {cell : String} (member : cell ∈ cells) :
    cell.length ≤ widest cells :=
  (longestFrom (cells.map String.length) 0).2 _ (List.mem_map_of_mem member)

def line (s : String) : String := s ++ "\n"

/- Each line is ended, the last one too. -/
def unlines (ls : List String) : String := String.join (ls.map line)

end LintGate.Text
