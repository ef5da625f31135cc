import LintGate.Yaml.Character
/-! How a gap of white space and breaks inside a scalar is read: within a line it stands for
itself, a single line feed for a space, and further breaks for themselves. -/
namespace LintGate.Yaml

/- What has been passed since the last character of the text. A gap is `folded` once a break
has been met in it. -/
structure Gap where
  spaces : List Char
  folded : Bool
  firstBreak : Option Char
  moreBreaks : List Char
  deriving DecidableEq, Repr

namespace Gap

def empty : Gap := ⟨[], false, none, []⟩

/- The gap behind a break that was escaped, and so stands for nothing. -/
def escaped : Gap := ⟨[], true, none, []⟩

def isEmpty (g : Gap) : Bool := g.spaces.isEmpty && !g.folded

/- White space next to a break is lost on either side of it. -/
def push (g : Gap) (c : Char) : Gap :=
  if isBreak c then
    if g.folded then { g with moreBreaks := g.moreBreaks ++ [c] }
    else ⟨[], true, some c, []⟩
  else if g.folded then g
  else { g with spaces := g.spaces ++ [c] }

def text (g : Gap) : List Char :=
  if !g.folded then g.spaces
  else match g.firstBreak with
    | some '\n' => if g.moreBreaks.isEmpty then [' '] else g.moreBreaks
    | some c => c :: g.moreBreaks
    | none => g.moreBreaks

end Gap
end LintGate.Yaml
