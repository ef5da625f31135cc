/-! White space as Unicode's property White_Space lists it, and the trims over it.
Format characters such as U+200B, U+FEFF or U+180E do not have the property. -/
namespace LintGate.Text

def isBlank (c : Char) : Bool :=
  let n := c.toNat
  (9 ≤ n && n ≤ 13) || n == 32 || n == 0x85 || n == 0xA0 || n == 0x1680 ||
  (0x2000 ≤ n && n ≤ 0x200A) || n == 0x2028 || n == 0x2029 || n == 0x202F ||
  n == 0x205F || n == 0x3000

def dropEndWhile {α : Type} (p : α → Bool) (xs : List α) : List α :=
  (xs.reverse.dropWhile p).reverse

theorem dropEndWhileLast {α : Type} (p : α → Bool) (xs : List α) (x : α) (keep : p x = false) :
    dropEndWhile p (xs ++ [x]) = xs ++ [x] := by
  simp [dropEndWhile, keep]

theorem dropEndWhileSkip {α : Type} (p : α → Bool) (xs : List α) (x : α) (skip : p x = true) :
    dropEndWhile p (xs ++ [x]) = dropEndWhile p xs := by
  simp [dropEndWhile, skip]

theorem dropWhileNone {α : Type} {p : α → Bool} {xs : List α} :
    xs.dropWhile p = [] ↔ xs.all p = true := by
  induction xs with
  | nil => simp
  | cons x xs ih => cases keep : p x <;> simp [keep, ih]

theorem dropEndWhileNone {α : Type} {p : α → Bool} {xs : List α} :
    dropEndWhile p xs = [] ↔ xs.all p = true := by
  rw [dropEndWhile, List.reverse_eq_nil_iff, dropWhileNone, List.all_reverse]

def trimStart (s : String) : String := String.ofList (s.toList.dropWhile isBlank)

def trimEnd (s : String) : String := String.ofList (dropEndWhile isBlank s.toList)

def trim (s : String) : String := trimEnd (trimStart s)

/- Holds of the empty text and of one that is white space throughout. -/
def isBlankText (s : String) : Bool := s.toList.all isBlank

theorem trimNothing {s : String} : trim s = "" ↔ isBlankText s = true := by
  have inside : (s.toList.dropWhile isBlank).all isBlank = true ↔ s.toList.all isBlank = true := by
    constructor
    · intro rest
      rw [← List.takeWhile_append_dropWhile (p := isBlank) (l := s.toList), List.all_append, rest]
      simp [List.all_takeWhile]
    · intro all
      exact List.all_eq_true.mpr fun c member =>
        List.all_eq_true.mp all c (List.dropWhile_subset isBlank member)
  rw [trim, trimEnd, trimStart, String.ofList_eq_empty_iff, String.toList_ofList,
    dropEndWhileNone, inside, isBlankText]

/- Only the letters A to Z change; every other character stands for itself. -/
def asciiLower (s : String) : String := String.ofList (s.toList.map Char.toLower)

/- How a name chosen from a list is compared: white space around it and the case of ASCII
letters do not matter. -/
def folded (s : String) : String := asciiLower (trim s)

end LintGate.Text
