/-! What a TOML text defines: a tree of tables, in which it is kept how each table came about,
since that decides what may still be added to it. -/
namespace LintGate.Toml

/- A table is `implied` by the header of one below it, and `dotted` if the parts of a key made
it; both can still grow, an `inline` one cannot. -/
inductive Origin
  | header | implied | dotted | inline
  deriving DecidableEq, Repr

/- `tables` is an array of tables that was written by headers, last first. Numbers, dates and
times are kept as they are written. -/
inductive Item
  | text (s : String)
  | boolean (value : Bool)
  | number (spelling : String)
  | moment (spelling : String)
  | array (items : List Item)
  | table (origin : Origin) (members : List (String × Item))
  | tables (last : List (String × Item)) (before : List (List (String × Item)))
  deriving Repr

abbrev Members := List (String × Item)

namespace Members

def set (key : String) (v : Item) : Members → Members
  | [] => [(key, v)]
  | (k, old) :: ms => if k = key then (key, v) :: ms else (k, old) :: set key v ms

/- What an existing member on the way may be passed as: its origin, its members, and how it
looks with other members. -/
def enter? (dotted : Bool) : Option Item → Option (Origin × Members × (Members → Item))
  | none =>
      let origin := if dotted then .dotted else .implied
      some (origin, [], .table origin)
  | some (.table origin ms) =>
      if origin = .inline ∨ (dotted ∧ origin = .header) then none
      else some (origin, ms, .table origin)
  | some (.tables last before) => some (.header, last, fun ms => .tables ms before)
  | some _ => none

/- Changes what a path leads to, and makes the tables on the way that are missing. A key of
several parts ends in a table that such a key made. -/
def alter (dotted : Bool) (change : Option Item → Option Item) (key : String) :
    Origin → List String → Members → Option Members
  | origin, [], ms =>
      if dotted && origin ≠ .dotted then none
      else (change (ms.lookup key)).map fun v => ms.set key v
  | _, part :: path, ms => do
      let (origin, inner, close) ← enter? dotted (ms.lookup part)
      let inner ← alter dotted change key origin path inner
      some (ms.set part (close inner))

def define (v : Item) : Option Item → Option Item
  | none => some v
  | some _ => none

/- Adds a key, which the path and the last part make up. It must not be there yet. -/
def add (path : List String) (key : String) (v : Item) (ms : Members) : Option Members :=
  alter (!path.isEmpty) (define v) key .header path ms

end Members

structure Entry where
  path : List String
  key : String
  value : Item
  deriving Repr

def Members.addAll (ms : Members) (entries : List Entry) : Option Members :=
  entries.foldlM (fun ms e => ms.add e.path e.key e.value) ms

def Item.inlineTable? (entries : List Entry) : Option Item :=
  (Members.addAll [] entries).map (.table .inline)

end LintGate.Toml
