import LintGate.Host
import LintGate.Host.Snapshot
/-! A host whose files are those of one snapshot. -/
namespace LintGate

structure Installation where
  directories : List String
  behaviour : Place → Call → Reply

namespace Snapshot

/- A zero character can be passed neither as the program nor as an argument. -/
def launch (s : Snapshot) (cwd : Place) (i : Installation) (c : Call) : Except Fault Reply := do
  if (c.program :: c.arguments).any fun word => '\x00' ∈ word.toList then throw .nulInArguments
  let p ← s.program cwd i.directories c.program
  return i.behaviour p c

def host (s : Snapshot) (cwd : Place) (colors : Bool) (scratch : Scratch) (i : Installation) :
    Host where
  directory := "/" ++ Path.join cwd
  colors := colors
  probe := s.probe cwd
  read := s.read cwd
  scratch := scratch
  begun := none
  launch := s.launch cwd i

end Snapshot
end LintGate
