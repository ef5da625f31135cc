import LintGate.Text.Layout
/-! Texts that lack a character, and what that is good for: a text is cut in two at a character that
the part in front lacks, or the part behind, and lines that have been ended one by one are read back
from the whole as long as none of them has a line break inside. -/
namespace LintGate.Text

/-! ### Missing characters -/

def Lacks (c : Char) (s : String) : Prop := c ∉ s.toList

instance (c : Char) (s : String) : Decidable (Lacks c s) := by unfold Lacks; infer_instance

abbrev OneLine (s : String) : Prop := Lacks '\n' s

variable {c : Char} {s t : String}

theorem lacksAppend : Lacks c (s ++ t) ↔ Lacks c s ∧ Lacks c t := by
  rw [Lacks, String.toList_append, List.mem_append, not_or, Lacks, Lacks]

theorem lacksDecimal (other : c.isDigit = false) (n : Nat) : Lacks c (decimal n) := by
  intro member
  rw [decimal, String.toList_ofList] at member
  rw [Nat.isDigit_of_mem_toDigits (by decide) (by decide) member] at other
  contradiction

theorem lacksSpaces (other : c ≠ ' ') (n : Nat) : Lacks c (spaces n) := by
  intro member
  rw [spaces, String.toList_ofList] at member
  exact other (List.eq_of_mem_replicate member)

theorem lacksPadStart (other : c ≠ ' ') (width : Nat) (lacks : Lacks c s) :
    Lacks c (padStart width s) :=
  lacksAppend.mpr ⟨lacksSpaces other _, lacks⟩

theorem lacksPadEnd (other : c ≠ ' ') (width : Nat) (lacks : Lacks c s) :
    Lacks c (padEnd width s) :=
  lacksAppend.mpr ⟨lacks, lacksSpaces other _⟩

/- Words that can be seen, and the spaces between them, have no control character. -/
theorem lacksWord (control : c.toNat < 32) (word : s.toList.all (32 ≤ ·.toNat) = true) :
    Lacks c s := by
  intro member
  exact Nat.not_le_of_lt control (of_decide_eq_true (List.all_eq_true.mp word c member))

theorem lacksNumber (control : c.toNat < 32) (n : Nat) : Lacks c (decimal n) := by
  refine lacksDecimal (Bool.eq_false_iff.mpr fun digit => ?_) n
  have zero : '0'.toNat = 48 := rfl
  have least : '0'.toNat ≤ c.toNat := (Char.isDigit_iff_toNat.mp digit).1
  omega

theorem lacksPlural (control : c.toNat < 32) (n : Nat) {noun : String}
    (word : noun.toList.all (32 ≤ ·.toNat) = true) : Lacks c (plural n noun) := by
  have lacks : Lacks c noun := lacksWord control word
  have space : Lacks c " " := lacksWord control rfl
  have ending : Lacks c (if n = 1 then noun else noun ++ "s") := by
    split
    · exact lacks
    · exact lacksAppend.mpr ⟨lacks, lacksWord control rfl⟩
  exact lacksAppend.mpr ⟨lacksAppend.mpr ⟨lacksNumber control n, space⟩, ending⟩

/-! ### Cuts -/

/- What stands in front of the first such character, and what stands behind it. -/
def cut? (c : Char) : List Char → Option (List Char × List Char)
  | [] => none
  | d :: ds =>
      if d = c then some ([], ds)
      else (cut? c ds).map fun (front, rest) => (d :: front, rest)

def cutLast? (c : Char) (cs : List Char) : Option (List Char × List Char) :=
  (cut? c cs.reverse).map fun (back, rest) => (rest.reverse, back.reverse)

theorem cutFirst {front : List Char} (lacks : c ∉ front) (rest : List Char) :
    cut? c (front ++ c :: rest) = some (front, rest) := by
  induction front with
  | nil => simp [cut?]
  | cons d front ih =>
    rw [List.mem_cons, not_or] at lacks
    rw [List.cons_append, cut?, if_neg (Ne.symm lacks.1), ih lacks.2, Option.map_some]

theorem cutNone {cs : List Char} (lacks : c ∉ cs) : cut? c cs = none := by
  induction cs with
  | nil => rfl
  | cons d cs ih =>
    rw [List.mem_cons, not_or] at lacks
    rw [cut?, if_neg (Ne.symm lacks.1), ih lacks.2, Option.map_none]

theorem cutLast {rest : List Char} (lacks : c ∉ rest) (front : List Char) :
    cutLast? c (front ++ c :: rest) = some (front, rest) := by
  have back : (front ++ c :: rest).reverse = rest.reverse ++ c :: front.reverse := by simp
  have lacks : c ∉ rest.reverse := fun member => lacks (List.mem_reverse.mp member)
  rw [cutLast?, back, cutFirst lacks]
  simp

/-! ### Lines -/

theorem unlinesAppend (ls ms : List String) : unlines (ls ++ ms) = unlines ls ++ unlines ms := by
  rw [unlines, List.map_append, String.join_append, unlines, unlines]

theorem unlinesNothing {ls : List String} : unlines ls = "" ↔ ls = [] := by
  cases ls with
  | nil => simp [unlines]
  | cons l ls =>
    have newline : '\n' ∈ (unlines (l :: ls)).toList := by simp [unlines, line]
    refine iff_of_false (fun empty => ?_) (List.cons_ne_nil l ls)
    rw [empty] at newline
    exact List.not_mem_nil newline

/- What stands behind the last line break is a line too, unless that is nothing. -/
def splitLines : List Char → List (List Char)
  | [] => []
  | c :: cs =>
      if c = '\n' then [] :: splitLines cs
      else match splitLines cs with
        | [] => [[c]]
        | l :: ls => (c :: l) :: ls

def linesOf (s : String) : List String := (splitLines s.toList).map String.ofList

theorem splitLine {l : List Char} (whole : '\n' ∉ l) (rest : List Char) :
    splitLines (l ++ '\n' :: rest) = l :: splitLines rest := by
  induction l with
  | nil => simp [splitLines]
  | cons c l ih =>
    rw [List.mem_cons, not_or] at whole
    rw [List.cons_append, splitLines, if_neg (Ne.symm whole.1), ih whole.2]

theorem linesUnlines {ls : List String} (whole : ∀ l ∈ ls, OneLine l) :
    linesOf (unlines ls) = ls := by
  have newline : "\n".toList = ['\n'] := rfl
  induction ls with
  | nil => rfl
  | cons l ls ih =>
    obtain ⟨first, rest⟩ := List.forall_mem_cons.mp whole
    have parts : (unlines (l :: ls)).toList = l.toList ++ '\n' :: (unlines ls).toList := by
      simp [unlines, line, newline]
    have more := ih rest
    rw [linesOf] at more ⊢
    rw [parts, splitLine first, List.map_cons, more, String.ofList_toList]

end LintGate.Text
