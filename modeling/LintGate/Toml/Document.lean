import LintGate.Toml.Statement
/-! The tree of tables that a sequence of statements builds up. -/
namespace LintGate.Toml

structure Section where
  array : Bool
  path : List String
  key : String
  entries : List Entry
  deriving Repr

def sections : List Statement → List Entry × List Section
  | [] => ([], [])
  | s :: ss =>
      let (entries, rest) := sections ss
      match s with
      | .entry e => (e :: entries, rest)
      | .table path key => ([], ⟨false, path, key, entries⟩ :: rest)
      | .tables path key => ([], ⟨true, path, key, entries⟩ :: rest)

/- A header makes its table, or completes one that was only implied. A doubled header adds
one more table to those that it made before. -/
def Section.open? (s : Section) : Option Item → Option (Members × (Members → Item))
  | none => some ([], if s.array then fun ms => .tables ms [] else .table .header)
  | some (.table .implied ms) => if s.array then none else some (ms, .table .header)
  | some (.tables last before) =>
      if s.array then some ([], fun ms => .tables ms (last :: before)) else none
  | some _ => none

def Section.change (s : Section) (old : Option Item) : Option Item := do
  let (ms, close) ← s.open? old
  let ms ← ms.addAll s.entries
  some (close ms)

def Members.addSection (ms : Members) (s : Section) : Option Members :=
  Members.alter false s.change s.key .header s.path ms

def ofStatements? (ss : List Statement) : Option Members := do
  let (entries, rest) := sections ss
  let ms ← Members.addAll [] entries
  rest.foldlM Members.addSection ms

def read? (text : String) : Option Members := (statements? text).bind ofStatements?

end LintGate.Toml
