import LintGate.Settings
import LintGate.Yaml.CoreSchema
/-! Settings in YAML. A null stands for an absent value, and where a text is wanted any other
scalar is taken for its spelling. -/
namespace LintGate.Settings
open LintGate.Yaml

/- Whether a value is there. A plain scalar says no by spelling a null, and it must spell one
if it is tagged so. -/
def present? : Node Nat → Option Bool
  | .scalar p .plain s =>
      match p.tag with
      | some tag =>
          if tag = Tag.null then (if CoreSchema.isNull s then some false else none)
          else some true
      | none => some (!s.isEmpty && !CoreSchema.isNull s)
  | _ => some true

/- A member that may be left out or be null. Aliases stand for what they name. -/
def nullable {α : Type} (d : Document) (read : Node Nat → Option α)
    (members : List (String × Node Nat)) (key : String) : Option (Option α) := do
  match members.lookup key with
  | none => return none
  | some v =>
      let v := d.deref v
      if ← present? v then return some (← read v) else return none

def scalarText? : Node Nat → Option String
  | .scalar _ _ s => some s
  | _ => none

/- A truth value is plain, whatever its tag, or a literal that is tagged as one. -/
def truth? : Node Nat → Option Bool
  | .scalar _ .plain s => CoreSchema.boolean? s
  | .scalar p .literal s =>
      if p.tag = some Tag.boolean then CoreSchema.boolean? s else none
  | _ => none

/- A text by its quotes or by its spelling. -/
def untagged? (style : Yaml.Style) (s : String) : Option String :=
  if style = .plain && CoreSchema.kind s ≠ .text then none else some s

/- A scalar that is a text by its type. A local tag is a type of its own, if it is text. -/
def word? : Node Nat → Option String
  | .scalar p style s =>
      match p.tag with
      | some tag =>
          if [Tag.boolean, Tag.integer, Tag.float, Tag.null].contains tag then none
          else if Tag.isLocal tag then (if Tag.isText tag then none else untagged? style s)
          else some s
      | none => untagged? style s
  | _ => none

def words? (d : Document) : Node Nat → Option (List String)
  | .scalar p style s => (word? (.scalar p style s)).map ([·])
  | .sequence p items =>
      if p.tag.any fun t => Tag.isLocal t && Tag.isText t then none
      else items.mapM fun n => word? (d.deref n)
  | _ => none

/-! ### The whole document -/

def member? (d : Document) (m : Node Nat × Node Nat) : Option (String × Node Nat) :=
  (scalarText? (d.deref m.1)).map fun key => (key, m.2)

/- The members of the root; a document that is empty has none. -/
def members? (d : Document) : Option (List (String × Node Nat)) :=
  match d.root with
  | .mapping _ members => members.mapM (member? d)
  | .scalar _ .plain "" => some []
  | _ => none

/- Every key is a scalar, and none of the known ones stands twice. -/
def ofDocument? (d : Document) : Option Settings := do
  let members ← members? d
  if ((members.map Prod.fst).filter keys.contains).Nodup then
    return {
      format := ← nullable d scalarText? members "format"
      strict := ← nullable d truth? members "strict"
      preset := ← nullable d scalarText? members "preset"
      localConfig := ← nullable d truth? members "localConfig"
      command := ← nullable d (words? d) members "eslint" }
  else none

def ofYaml? (text : String) : Option Settings := do
  match ← Yaml.read? text with
  | some d => ofDocument? d
  | none => return .empty

end LintGate.Settings
