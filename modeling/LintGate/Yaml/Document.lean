import LintGate.Yaml.Node
/-! A stream of at most one document, with its directives and its aliases settled. -/
namespace LintGate.Yaml

/-! ### Directives -/

structure Directives where
  versioned : Bool
  handles : Handles
  deriving DecidableEq, Repr

/- The directives in front of a document. Versions 1.1 and 1.2 are known, and neither a version
nor a handle may be given twice. -/
def directives? (d : Directives) : List Token → Option (Directives × List Token)
  | .version major minor :: ts =>
      if d.versioned || major ≠ 1 || (minor ≠ 1 && minor ≠ 2) then none
      else directives? { d with versioned := true } ts
  | .tagHandle handle start :: ts =>
      if (d.handles.lookup handle).isSome then none
      else directives? { d with handles := (handle, start) :: d.handles } ts
  | ts => some (d, ts)

def Token.opensDocument : Token → Bool
  | .version _ _ | .tagHandle _ _ | .documentStart => true
  | _ => false

def Token.bordersDocument (t : Token) : Bool := t.opensDocument || t == .documentEnd

/- The root of a document, which may be empty only behind a document mark. -/
def root? (ts : List Token) : Option (Node String × List Token) :=
  if ts.head?.any Token.opensDocument then do
    match ← directives? ⟨false, []⟩ ts with
    | (d, .documentStart :: ts) =>
        if ts.head?.all Token.bordersDocument then some (.empty, ts)
        else node? (d.handles ++ Handles.usual) ts
    | _ => none
  else node? Handles.usual ts

/-! ### Aliases -/

/- The number that each name has by now. -/
abbrev Anchors := List (String × Nat)

/- A name gets how many names there are so far as its number, also one that has a number
already; that one then shares it with the next new name. -/
def Anchors.add (a : Anchors) : Option String → Anchors × Option Nat
  | none => (a, none)
  | some name => ((name, a.length) :: a.filter (·.1 ≠ name), some a.length)

def Properties.number (a : Anchors) (p : Properties String) : Anchors × Properties Nat :=
  let (a, anchor) := a.add p.anchor
  (a, ⟨anchor, p.tag⟩)

/- Names are met in the order of the text: a node before what is in it, a key before its value. -/
mutual
def Node.number (a : Anchors) : Node String → Option (Anchors × Node Nat)
  | .reference name => (a.lookup name).map fun n => (a, .reference n)
  | .scalar p style text =>
      let (a, p) := p.number a
      some (a, .scalar p style text)
  | .sequence p items => do
      let (a, p) := p.number a
      let (a, items) ← Node.numberItems a items
      some (a, .sequence p items)
  | .mapping p members => do
      let (a, p) := p.number a
      let (a, members) ← Node.numberMembers a members
      some (a, .mapping p members)

def Node.numberItems (a : Anchors) : List (Node String) → Option (Anchors × List (Node Nat))
  | [] => some (a, [])
  | n :: ns => do
      let (a, n) ← n.number a
      let (a, ns) ← Node.numberItems a ns
      some (a, n :: ns)

def Node.numberMembers (a : Anchors) :
    List (Node String × Node String) → Option (Anchors × List (Node Nat × Node Nat))
  | [] => some (a, [])
  | (k, v) :: ms => do
      let (a, k) ← k.number a
      let (a, v) ← v.number a
      let (a, ms) ← Node.numberMembers a ms
      some (a, (k, v) :: ms)
end

mutual
def Node.all {α : Type} : Node α → List (Node α)
  | .reference n => [.reference n]
  | .scalar p style text => [.scalar p style text]
  | .sequence p items => .sequence p items :: Node.allItems items
  | .mapping p members => .mapping p members :: Node.allMembers members

def Node.allItems {α : Type} : List (Node α) → List (Node α)
  | [] => []
  | n :: ns => n.all ++ Node.allItems ns

def Node.allMembers {α : Type} : List (Node α × Node α) → List (Node α)
  | [] => []
  | (k, v) :: ms => k.all ++ (v.all ++ Node.allMembers ms)
end

/-! ### Documents -/

structure Document where
  root : Node Nat
  deriving Repr

/- Of the nodes with one number the last is meant, whenever the alias stands. -/
def Document.target? (d : Document) (number : Nat) : Option (Node Nat) :=
  (d.root.all.filter fun n => n.anchor? == some number).getLast?

def Document.deref (d : Document) : Node Nat → Node Nat
  | .reference n => (d.target? n).getD (.reference n)
  | n => n

/- The document of a stream, and none of an empty one. The outer option is empty if the text
is no stream or has more than one document. -/
def read? (text : String) : Option (Option Document) := do
  match ← tokens? text with
  | [] => some none
  | ts =>
      let (root, ts) ← root? ts
      if ts.all (· == .documentEnd) then
        let (_, root) ← root.number []
        some (some ⟨root⟩)
      else none

end LintGate.Yaml
