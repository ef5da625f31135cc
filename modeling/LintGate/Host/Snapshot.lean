import LintGate.Host.Fault
import LintGate.Path
/-! A file system at one moment: directories, files and symbolic links below one root, and how
a path is followed through them. Everyone may search every directory and read every file. -/
namespace LintGate

inductive Entry
  | directory
  | file (content : List UInt8) (executable : Bool)
  | link (target : String)
  deriving DecidableEq, Repr

/- The names that lead to an entry from the root. -/
abbrev Place := List String

structure Snapshot where
  entries : List (Place × Entry)
  deriving DecidableEq, Repr

namespace Snapshot

/- The root is always a directory. -/
def at? (s : Snapshot) : Place → Option Entry
  | [] => some .directory
  | p => (s.entries.find? fun e => e.1 == p).map Prod.snd

def isDirectory (s : Snapshot) (p : Place) : Bool := s.at? p == some .directory

/-! ### Following a path -/

/- Where a walk has come to: its end, or a link with the parts still to go behind it. -/
inductive Reached
  | place (p : Place)
  | link (directory : Place) (target : String) (rest : List String)
  deriving DecidableEq, Repr

/- Only a directory can be searched, and an empty part, `.` and `..` search it too. -/
def walk (s : Snapshot) : Place → List String → Except Fault Reached
  | p, [] => .ok (.place p)
  | p, part :: rest =>
      if !s.isDirectory p then .error .notDirectory
      else if part = "" ∨ part = "." then walk s p rest
      else if part = ".." then walk s p.dropLast rest
      else if part.utf8ByteSize > 255 then .error .nameTooLong
      else match s.at? (p ++ [part]) with
        | none => .error .notFound
        | some (.link target) => .ok (.link p target rest)
        | some _ => walk s (p ++ [part]) rest

def follow (s : Snapshot) : Nat → Place → List String → Except Fault Place
  | links, p, todo => do
      match ← walk s p todo with
      | .place p => return p
      | .link directory target rest =>
          let start := if Path.isAbsolute target then [] else directory
          match links with
          | 0 => throw .linkLoop
          | links + 1 => follow s links start (Path.parts target ++ rest)

def maxLinks : Nat := 40
def maxPathBytes : Nat := 4095

def resolve (s : Snapshot) (cwd : Place) (path : String) : Except Fault Place :=
  if '\x00' ∈ path.toList then .error .nulInName
  else if path = "" then .error .notFound
  else if path.utf8ByteSize > maxPathBytes then .error .nameTooLong
  else follow s maxLinks (if Path.isAbsolute path then [] else cwd) (Path.parts path)

/- Whether the path leads to an entry, unless that cannot be told. -/
def probe (s : Snapshot) (cwd : Place) (path : String) : Except Fault Bool :=
  match s.resolve cwd path with
  | .ok _ => .ok true
  | .error .notFound => .ok false
  | .error f => .error f

def read (s : Snapshot) (cwd : Place) (path : String) : Except Fault (List UInt8) := do
  match s.at? (← s.resolve cwd path) with
  | some (.file content _) => return content
  | some .directory => throw .isDirectory
  | some (.link _) | none => throw .notFound

/-! ### Starting a program -/

def executable (s : Snapshot) (cwd : Place) (path : String) : Except Fault Place := do
  let p ← s.resolve cwd path
  match s.at? p with
  | some (.file _ true) => return p
  | _ => throw .denied

/- A directory that refuses the name does not end the search, but is what it fails with. -/
def search (s : Snapshot) (cwd : Place) (name : String) (refused : Bool) :
    List String → Except Fault Place
  | [] => .error (if refused then .denied else .notFound)
  | directory :: rest =>
      match s.executable cwd (directory ++ "/" ++ name) with
      | .ok p => .ok p
      | .error .denied => search s cwd name true rest
      | .error .notFound | .error .notDirectory => search s cwd name refused rest
      | .error f => .error f

/- A name with a slash is a path; any other is looked up in the directories given. -/
def program (s : Snapshot) (cwd : Place) (directories : List String) (name : String) :
    Except Fault Place :=
  if '/' ∈ name.toList then s.executable cwd name
  else if name = "" then .error .notFound
  else if name.utf8ByteSize > 255 then .error .nameTooLong
  else s.search cwd name false directories

/-! ### Changes -/

def without (s : Snapshot) (p : Place) : Snapshot :=
  ⟨s.entries.filter fun e => !p.isPrefixOf e.1⟩

def put (s : Snapshot) (p : Place) (e : Entry) : Snapshot :=
  if p = [] then s else ⟨(p, e) :: s.entries.filter (fun old => old.1 ≠ p)⟩

/- The place of a directory that is made together with all that lead to it. -/
def makeDirectories (s : Snapshot) (p : Place) : List String → Snapshot × Place
  | [] => (s, p)
  | part :: rest =>
      if part = "" ∨ part = "." then makeDirectories s p rest
      else if part = ".." then makeDirectories s p.dropLast rest
      else match s.follow maxLinks p [part] with
        | .ok q => makeDirectories s q rest
        | .error _ => makeDirectories (s.put (p ++ [part]) .directory) (p ++ [part]) rest

def makeDirectory (s : Snapshot) (base : Place) (path : String) : Snapshot :=
  (s.makeDirectories base (Path.parts path)).1

/- The snapshot with the parents of a path made, and the place that its last name has then. -/
def prepare (s : Snapshot) (base : Place) (path : String) : Snapshot × Place :=
  let names := Path.components path
  let (s, parent) := s.makeDirectories base names.dropLast
  (s, parent ++ names.getLast?.toList)

/- Writing goes through a link at the place itself to where that leads. -/
def writeAt (s : Snapshot) (content : List UInt8) : Nat → Place → Snapshot
  | links + 1, p =>
      match s.at? p with
      | some (.link target) =>
          let start := if Path.isAbsolute target then [] else p.dropLast
          let (s, p) := s.prepare start target
          writeAt s content links p
      | _ => s.put p (.file content false)
  | 0, _ => s

def write (s : Snapshot) (base : Place) (path : String) (content : List UInt8) : Snapshot :=
  let (s, p) := s.prepare base path
  s.writeAt content maxLinks p

def makeLink (s : Snapshot) (base : Place) (path target : String) : Snapshot :=
  let (s, p) := s.prepare base path
  s.put p (.link target)

/- A directory goes with all that is below it, a link without what it leads to. -/
def remove (s : Snapshot) (base : Place) (path : String) : Snapshot :=
  let names := Path.components path
  match s.follow maxLinks base names.dropLast with
  | .ok parent => s.without (parent ++ names.getLast?.toList)
  | .error _ => s

end Snapshot
end LintGate
