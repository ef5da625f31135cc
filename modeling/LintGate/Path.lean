/-! Path texts: their components, their extension, and how a file below the working directory
is shown. Nothing here looks at a file system. -/
namespace LintGate.Path

/- The parts between slashes; there is one more of them than slashes. -/
def splitSlashes : List Char → List (List Char)
  | [] => [[]]
  | c :: cs =>
      if c = '/' then [] :: splitSlashes cs
      else match splitSlashes cs with
        | [] => [[c]]
        | part :: parts => (c :: part) :: parts

def parts (path : String) : List String := (splitSlashes path.toList).map String.ofList

def isAbsolute (path : String) : Bool := path.toList.head? = some '/'

/- The parts that name something. A repeated or trailing slash and a `.` name nothing. -/
def components (path : String) : List String :=
  (parts path).filter fun part => part ≠ "" ∧ part ≠ "."

def fileName? (path : String) : Option String :=
  match (components path).getLast? with
  | some ".." => none
  | name => name

/- What follows the last dot of the file name, unless that dot is its first character. -/
def extension? (path : String) : Option String := do
  let name ← fileName? path
  let after := (name.toList.reverse.takeWhile (· ≠ '.')).reverse
  let before := (name.toList.reverse.dropWhile (· ≠ '.')).drop 1
  if before.isEmpty then none else some (String.ofList after)

def join (components : List String) : String := String.intercalate "/" components

/- The rest of the second list after the first one, if it begins with that. -/
def beyond? {α : Type} [DecidableEq α] : List α → List α → Option (List α)
  | [], ys => some ys
  | _ :: _, [] => none
  | x :: xs, y :: ys => if x = y then beyond? xs ys else none

theorem beyondAppend {α : Type} [DecidableEq α] (xs ys : List α) :
    beyond? xs (xs ++ ys) = some ys := by
  induction xs with
  | nil => rfl
  | cons x xs ih => simp [beyond?, ih]

theorem appendBeyond {α : Type} [DecidableEq α] {xs ys zs : List α}
    (h : beyond? xs ys = some zs) : ys = xs ++ zs := by
  induction xs generalizing ys with
  | nil => exact Option.some.inj h
  | cons x xs ih =>
    cases ys with
    | nil => simp [beyond?] at h
    | cons y ys =>
      simp only [beyond?] at h
      split at h
      · next same => rw [same, ih h]; rfl
      · simp at h

/- An absolute file below the directory is shown relative to it. One that leaves the directory
again at once, and every relative one, is shown as it was given. -/
def shown (directory file : String) : String :=
  if isAbsolute file then
    match beyond? (components directory) (components file) with
    | none => file
    | some rest => if rest.head? = some ".." then file else join rest
  else file

end LintGate.Path
