import LintGate.Host.Fault
import LintGate.Text.Layout
/-! What a run can see of the system around it and do to it: files to look at, a directory for
temporary files, and programs to start. -/
namespace LintGate

/-! ### Programs -/

inductive Ending
  | exited (code : UInt8)
  | signalled
  deriving DecidableEq, Repr

structure Reply where
  stdout : List UInt8
  stderr : List UInt8
  ending : Ending
  deriving DecidableEq, Repr

structure Call where
  program : String
  arguments : List String
  environment : List (String × String)
  files : List (String × String)
  deriving DecidableEq, Repr

/-! ### Temporary files -/

/- The directory for temporary files, with the names and texts of those in it, and the reason
if none can be made there. -/
structure Scratch where
  directory : String
  fault : Option Fault
  files : List (String × String)
  deriving DecidableEq, Repr

namespace Scratch

/- A name that is longer than every name in the directory, and so a new one. -/
def freshName (s : Scratch) : String :=
  "jqlint-" ++ String.ofList (List.replicate (Text.widest (s.files.map Prod.fst)) 'x') ++ ".json"

def path (s : Scratch) (name : String) : String := s.directory ++ "/" ++ name

def add (s : Scratch) (name text : String) : Scratch :=
  { s with files := (name, text) :: s.files }

def remove (s : Scratch) (name : String) : Scratch :=
  { s with files := s.files.filter fun f => f.1 ≠ name }

def visible (s : Scratch) : List (String × String) :=
  s.files.map fun f => (s.path f.1, f.2)

end Scratch

/- `probe` tells whether there is something at a path, and `colors` whether the terminal is to
be written to in colours. Where no text can be left in a temporary file, `begun` is the number of
characters that one takes before that shows, or `none` if not even an empty one can be made. -/
structure Host where
  directory : String
  colors : Bool
  probe : String → Except Fault Bool
  read : String → Except Fault (List UInt8)
  scratch : Scratch
  begun : Option Nat
  launch : Call → Except Fault Reply

/- What leaving a text in a temporary file fails with, if it does, and what is there after it. -/
def Host.store (h : Host) (name text : String) : Option Fault × Scratch :=
  match h.scratch.fault, h.begun with
  | none, _ => (none, h.scratch.add name text)
  | some fault, none => (some fault, h.scratch)
  | some fault, some n => (some fault, h.scratch.add name (String.ofList (text.toList.take n)))

end LintGate
