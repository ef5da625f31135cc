import LintGate.Yaml.Scan
/-! From words to the one node of a document. Anchors are names here; what an alias stands for
is settled in a second pass over the whole tree. -/
namespace LintGate.Yaml

structure Properties (α : Type) where
  anchor : Option α
  tag : Option Octets
  deriving DecidableEq, Repr

def Properties.none {α : Type} : Properties α := ⟨.none, .none⟩

inductive Node (α : Type)
  | reference (anchor : α)
  | scalar (properties : Properties α) (style : Style) (text : String)
  | sequence (properties : Properties α) (items : List (Node α))
  | mapping (properties : Properties α) (members : List (Node α × Node α))
  deriving Repr

namespace Node

def empty {α : Type} : Node α := .scalar .none .plain ""

def anchor? {α : Type} : Node α → Option α
  | reference _ => none
  | scalar p _ _ | sequence p _ | mapping p _ => p.anchor

end Node

/-! ### Tags -/

/- What stands for each handle, the latest directive first. -/
abbrev Handles := List (List Char × Octets)

def Handles.usual : Handles :=
  [("!".toList, Tag.ofText "!"), ("!!".toList, Tag.ofText "tag:yaml.org,2002:")]

def Handles.resolve? (h : Handles) (s : Tag.Spelling) : Option Octets :=
  if s.handle = [] then some s.suffix
  else (h.lookup s.handle).map (· ++ s.suffix)

/- An anchor and a tag, each at most once and in either order. -/
def properties? (h : Handles) : List Token → Option (Properties String × List Token)
  | .anchor a :: .tag t :: ts | .tag t :: .anchor a :: ts =>
      (h.resolve? t).map fun tag => (⟨some a, some tag⟩, ts)
  | .anchor a :: ts => some (⟨some a, none⟩, ts)
  | .tag t :: ts => (h.resolve? t).map fun tag => (⟨none, some tag⟩, ts)
  | ts => some (.none, ts)

/-! ### Nodes -/

/- Only in a block may block collections stand, and only as a member of a mapping a sequence
that is not indented. -/
inductive Context
  | flow | block | member
  deriving DecidableEq, Repr

def Token.endsEntry (indented : Bool) : Token → Bool
  | .blockEntry | .blockEnd => true
  | .key | .value => !indented
  | _ => false

def Token.endsMember : Token → Bool
  | .key | .value | .blockEnd => true
  | _ => false

def Token.endsFlowKey : Token → Bool
  | .value | .flowEntry | .flowMappingEnd => true
  | _ => false

def Token.endsFlowValue : Token → Bool
  | .flowEntry | .flowMappingEnd | .flowSequenceEnd => true
  | _ => false

def separated? (first : Bool) : List Token → Option (List Token)
  | .flowEntry :: ts => if first then some (.flowEntry :: ts) else some ts
  | ts => if first then some ts else none

/- In a flow sequence, the word that shows a marked key to be empty is passed as if it were
the key. -/
def emptyFlowKey? : List Token → Option (List Token)
  | .value :: ts | .flowEntry :: ts | .flowSequenceEnd :: ts => some ts
  | _ => none

/- Two steps at most pass before a word is used up. -/
mutual
def nodeFrom (h : Handles) : Nat → Context → List Token → Option (Node String × List Token)
  | 0, _, _ => none
  | _ + 1, _, .reference name :: ts => some (.reference name, ts)
  | fuel + 1, c, ts => do
      let (p, ts) ← properties? h ts
      match c, ts with
      | .member, .blockEntry :: _ =>
          let (items, ts) ← entriesFrom h fuel false ts
          some (.sequence p items, ts)
      | _, .scalar style text :: ts => some (.scalar p style text, ts)
      | _, .flowSequence :: ts =>
          let (items, ts) ← flowItemsFrom h fuel true ts
          some (.sequence p items, ts)
      | _, .flowMapping :: ts =>
          let (members, ts) ← flowMembersFrom h fuel true ts
          some (.mapping p members, ts)
      | .block, .blockSequence :: ts | .member, .blockSequence :: ts =>
          let (items, ts) ← entriesFrom h fuel true ts
          some (.sequence p items, ts)
      | .block, .blockMapping :: ts | .member, .blockMapping :: ts =>
          let (members, ts) ← membersFrom h fuel ts
          some (.mapping p members, ts)
      | _, ts => if p = .none then none else some (.scalar p .plain "", ts)

/- A node, or the empty one in front of a word that cannot begin it. -/
def nodeOrEmptyFrom (h : Handles) (ends : Token → Bool) :
    Nat → Context → List Token → Option (Node String × List Token)
  | 0, _, _ => none
  | fuel + 1, c, ts =>
      if ts.head?.any ends then some (.empty, ts) else nodeFrom h fuel c ts

/- The entries of a block sequence; one that is not indented ends where they do. -/
def entriesFrom (h : Handles) :
    Nat → Bool → List Token → Option (List (Node String) × List Token)
  | 0, _, _ => none
  | fuel + 1, indented, .blockEntry :: ts => do
      let (item, ts) ← nodeOrEmptyFrom h (Token.endsEntry indented) fuel .block ts
      let (items, ts) ← entriesFrom h fuel indented ts
      some (item :: items, ts)
  | _ + 1, true, .blockEnd :: ts => some ([], ts)
  | _ + 1, true, _ => none
  | _ + 1, false, ts => some ([], ts)

def membersFrom (h : Handles) :
    Nat → List Token → Option (List (Node String × Node String) × List Token)
  | 0, _ => none
  | fuel + 1, .key :: ts => do
      let (key, ts) ← nodeOrEmptyFrom h Token.endsMember fuel .member ts
      let (value, ts) ← valueFrom h Token.endsMember fuel .member ts
      let (members, ts) ← membersFrom h fuel ts
      some ((key, value) :: members, ts)
  | _ + 1, .blockEnd :: ts => some ([], ts)
  | _ + 1, _ => none

def valueFrom (h : Handles) (ends : Token → Bool) :
    Nat → Context → List Token → Option (Node String × List Token)
  | 0, _, _ => none
  | fuel + 1, c, .value :: ts => nodeOrEmptyFrom h ends fuel c ts
  | _ + 1, _, ts => some (.empty, ts)

/- The items of a flow sequence. A key in it makes a mapping of one member. -/
def flowItemsFrom (h : Handles) :
    Nat → Bool → List Token → Option (List (Node String) × List Token)
  | 0, _, _ => none
  | _ + 1, _, .flowSequenceEnd :: ts => some ([], ts)
  | fuel + 1, first, ts => do
      match ← separated? first ts with
      | .flowSequenceEnd :: ts => some ([], ts)
      | .key :: ts =>
          let (key, ts) ← match emptyFlowKey? ts with
            | some ts => some (Node.empty, ts)
            | none => nodeFrom h fuel .flow ts
          let (value, ts) ← valueFrom h Token.endsFlowValue fuel .flow ts
          let (items, ts) ← flowItemsFrom h fuel false ts
          some (.mapping .none [(key, value)] :: items, ts)
      | ts =>
          let (item, ts) ← nodeFrom h fuel .flow ts
          let (items, ts) ← flowItemsFrom h fuel false ts
          some (item :: items, ts)

/- The members of a flow mapping. A node without a key mark is a key with an empty value. -/
def flowMembersFrom (h : Handles) :
    Nat → Bool → List Token → Option (List (Node String × Node String) × List Token)
  | 0, _, _ => none
  | _ + 1, _, .flowMappingEnd :: ts => some ([], ts)
  | fuel + 1, first, ts => do
      match ← separated? first ts with
      | .flowMappingEnd :: ts => some ([], ts)
      | .key :: ts =>
          let (key, ts) ← nodeOrEmptyFrom h Token.endsFlowKey fuel .flow ts
          let (value, ts) ← valueFrom h Token.endsFlowValue fuel .flow ts
          let (members, ts) ← flowMembersFrom h fuel false ts
          some ((key, value) :: members, ts)
      | ts =>
          let (key, ts) ← nodeFrom h fuel .flow ts
          let (members, ts) ← flowMembersFrom h fuel false ts
          some ((key, .empty) :: members, ts)
end

def node? (h : Handles) (ts : List Token) : Option (Node String × List Token) :=
  nodeFrom h (3 * ts.length + 3) .block ts

end LintGate.Yaml
