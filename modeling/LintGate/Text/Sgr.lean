/-! Terminal attributes as Select Graphic Rendition sequences. -/
namespace LintGate.Text

inductive Attribute
  | bold | dimmed | underlined | red | green | yellow | blue
  deriving DecidableEq, Repr

namespace Attribute

def on : Attribute → String
  | bold => "1"
  | dimmed => "2"
  | underlined => "4"
  | red => "31"
  | green => "32"
  | yellow => "33"
  | blue => "34"

/- A colour goes back to the terminal's own; any other attribute ends by a full reset. -/
def off : Attribute → String
  | bold | dimmed | underlined => "0"
  | red | green | yellow | blue => "39"

end Attribute

def sgr (code : String) : String := "\x1b[" ++ code ++ "m"

def paint (a : Attribute) (s : String) : String := sgr a.on ++ s ++ sgr a.off

/- The attributes of the list from the outermost to the innermost, where colours are in use. -/
def ink (colors : Bool) (as : List Attribute) (s : String) : String :=
  if colors then as.foldr paint s else s

theorem inkPlain (as : List Attribute) (s : String) : ink false as s = s := rfl

end LintGate.Text
