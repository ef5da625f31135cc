import LintGate.Yaml.Plain
/-! Literal and folded block scalars. -/
namespace LintGate.Yaml.Block

/- What becomes of the breaks at the end: all but one are dropped unless the header says. -/
inductive Chomping
  | strip | clip | keep
  deriving DecidableEq, Repr

structure Header where
  chomping : Chomping
  increment : Nat
  deriving DecidableEq, Repr

def chomping? : Char → Option Chomping
  | '+' => some .keep
  | '-' => some .strip
  | _ => none

def digit? (c : Char) : Option Nat := if c.isDigit then some (c.toNat - 48) else none

/- An increment of 0 is written by leaving it out. -/
def header? : List Char → Option (Header × List Char)
  | [] => some (⟨.clip, 0⟩, [])
  | c :: cs =>
      match chomping? c, digit? c with
      | some h, _ =>
          match cs.head?.bind digit? with
          | some 0 => none
          | some n => some (⟨h, n⟩, cs.drop 1)
          | none => some (⟨h, 0⟩, cs)
      | none, some 0 => none
      | none, some n =>
          match cs.head?.bind chomping? with
          | some h => some (⟨h, n⟩, cs.drop 1)
          | none => some (⟨.clip, n⟩, cs)
      | none, none => some (⟨.clip, 0⟩, c :: cs)

/- The reader is either at the indentation of a line or inside the line. An `indent` of 0 has
still to be found out; it then is that of the deepest line before the first one with text. -/
structure State where
  inLine : Bool
  indent : Nat
  deepest : Nat
  text : List Char
  firstBreak : Option Char
  moreBreaks : List Char
  startsBlank : Bool
  deriving DecidableEq, Repr

/- Lines that begin with white space keep the breaks around them. -/
def State.joint (s : State) (literal blank : Bool) : List Char :=
  if !literal && s.firstBreak = some '\n' && !s.startsBlank && !blank then
    (if s.moreBreaks.isEmpty then [' '] else []) ++ s.moreBreaks
  else s.firstBreak.toList ++ s.moreBreaks

def State.finish (s : State) (h : Chomping) (m : Mark) (rest : List Char) : ScalarRead :=
  let breaks := match h with
    | .strip => []
    | .clip => s.firstBreak.toList
    | .keep => s.firstBreak.toList ++ s.moreBreaks
  ⟨s.text ++ breaks, m, rest, true⟩

def linesFrom (literal : Bool) (h : Chomping) (least : Nat) (s : State) (m : Mark) :
    List Char → Option ScalarRead
  | [] => some (s.finish h m [])
  | c :: cs =>
      if s.inLine then
        if isBreak c then
          linesFrom literal h least
            { s with inLine := false, firstBreak := some c, moreBreaks := [] } m.newLine cs
        else linesFrom literal h least { s with text := s.text ++ [c] } (m.next c) cs
      else
        let shallow := s.indent = 0 ∨ m.column < s.indent
        if shallow ∧ c = ' ' then linesFrom literal h least s (m.next c) cs
        else if shallow ∧ c = '\t' then none
        else if isBreak c then
          linesFrom literal h least
            { s with deepest := max s.deepest m.column, moreBreaks := s.moreBreaks ++ [c] }
            m.newLine cs
        else
          let indent := if s.indent = 0 then max (max s.deepest m.column) least else s.indent
          if m.column = indent then
            let blank := isSpace c
            linesFrom literal h least
              { s with
                  inLine := true
                  indent := indent
                  text := s.text ++ s.joint literal blank ++ [c]
                  firstBreak := none
                  moreBreaks := []
                  startsBlank := blank }
              (m.next c) cs
          else some (s.finish h m (c :: cs))

def dropComment : List Char → List Char
  | '#' :: cs => cs.dropWhile (!isBreak ·)
  | cs => cs

/- A block scalar from behind its `|` or `>` on, inside a collection with the given
indentation, if there is one. -/
def read (literal : Bool) (outer : Option Nat) (m : Mark) (cs : List Char) :
    Option ScalarRead := do
  let (h, rest) ← header? cs
  let rest := dropComment (rest.dropWhile isSpace)
  let m := m.skip (cs.take (cs.length - rest.length))
  let least := match outer with
    | some n => n + 1
    | none => 1
  let indent := if h.increment = 0 then 0 else outer.getD 0 + h.increment
  let start : State := ⟨false, indent, 0, [], none, [], false⟩
  match rest with
  | [] => some (start.finish h.chomping m [])
  | c :: cs => if isBreak c then linesFrom literal h.chomping least start m.newLine cs else none

end LintGate.Yaml.Block
