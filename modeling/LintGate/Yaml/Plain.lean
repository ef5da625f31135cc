import LintGate.Yaml.Folding
/-! Scalars without quotes. -/
namespace LintGate.Yaml

/- A scalar that has been read, and where. `newLine` tells whether a break follows it. -/
structure ScalarRead where
  text : List Char
  mark : Mark
  rest : List Char
  newLine : Bool
  deriving DecidableEq, Repr

namespace Plain

def isFlowMark (c : Char) : Bool :=
  c == ',' || c == '[' || c == ']' || c == '{' || c == '}'

/- A colon that a flow collection neither reads as a value mark nor as text. -/
def strayColon (c : Char) : List Char → Bool
  | d :: _ => c == ':' && (isFlowMark d || d == '?')
  | [] => false

def ends (flow : Bool) (c : Char) (rest : List Char) : Bool :=
  (c == ':' && wordEnds rest) || (flow && isFlowMark c)

/- After a gap the scalar goes on only if the line is indented enough and neither a document
mark nor a comment comes. Inside a flow collection the indentation does not matter. -/
def readFrom (flow : Bool) (indent : Nat) (first : Bool) (text : List Char) (gap : Gap)
    (m : Mark) : List Char → Option ScalarRead
  | [] => some ⟨text, m, [], gap.folded⟩
  | c :: cs =>
      if isBreak c then readFrom flow indent false text (gap.push c) m.newLine cs
      else if isSpace c then
        if gap.folded && m.column < indent && c == '\t' then none
        else readFrom flow indent false text (gap.push c) (m.next c) cs
      else
        let afterGap := first || !gap.isEmpty
        if (!gap.isEmpty && !flow && m.column < indent)
            || (afterGap && ((m.column == 0 && atDocumentMark (c :: cs)) || c == '#')) then
          some ⟨text, m, c :: cs, gap.folded⟩
        else if flow && strayColon c cs then none
        else if ends flow c cs then some ⟨text, m, c :: cs, gap.folded⟩
        else readFrom flow indent false (text ++ gap.text ++ [c]) .empty (m.next c) cs

def read (flow : Bool) (indent : Nat) (m : Mark) (cs : List Char) : Option ScalarRead :=
  readFrom flow indent true [] .empty m cs

end Plain
end LintGate.Yaml
