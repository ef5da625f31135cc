import LintGate.Host.Fault
/-! The files named for a run, parted by whether there is something to check. -/
namespace LintGate

/- Each list keeps the order of the names and every repetition. -/
structure Selection where
  present : List String
  missing : List String
  inaccessible : List (String × Fault)
  deriving DecidableEq, Repr

namespace Selection

def empty : Selection := ⟨[], [], []⟩

def add (s : Selection) (path : String) : Except Fault Bool → Selection
  | .ok true => { s with present := path :: s.present }
  | .ok false => { s with missing := path :: s.missing }
  | .error fault => { s with inaccessible := (path, fault) :: s.inaccessible }

def of (probe : String → Except Fault Bool) (paths : List String) : Selection :=
  paths.foldr (fun path s => s.add path (probe path)) empty

end Selection
end LintGate
