import LintGate.Text.Hex
import LintGate.Text.Utf8
import LintGate.Yaml.Character
/-! Tags, and the handles that shorten them. A tag is a list of octets, since an escape in it
names an octet. -/
namespace LintGate.Yaml

abbrev Octets := List UInt8

namespace Tag

def ofText (s : String) : Octets := Text.Utf8.encode s

def null : Octets := ofText "tag:yaml.org,2002:null"
def boolean : Octets := ofText "tag:yaml.org,2002:bool"
def integer : Octets := ofText "tag:yaml.org,2002:int"
def float : Octets := ofText "tag:yaml.org,2002:float"

/- A local tag is one of the application's own. -/
def isLocal (t : Octets) : Bool := t.head? = some 33

def isText (t : Octets) : Bool := (Text.Utf8.decode? t).isSome

/-! ### Spelling -/

/- The handle `!`, `!!` or `!name!`, or the beginning of a local tag. -/
def handle? : List Char → Option (List Char × List Char)
  | '!' :: cs =>
      let name := cs.takeWhile isNameChar
      match cs.dropWhile isNameChar with
      | '!' :: rest => some ('!' :: (name ++ ['!']), rest)
      | rest => some ('!' :: name, rest)
  | _ => none

def isUriChar (verbatim : Bool) (c : Char) : Bool :=
  isNameChar c || ";/?:@&=+$.!~*()%\x27".toList.contains c ||
    (verbatim && (c == ',' || c == '[' || c == ']'))

def width? (n : Nat) : Option Nat :=
  if n < 0x80 then some 1
  else if n / 32 = 6 then some 2
  else if n / 16 = 14 then some 3
  else if n / 8 = 30 then some 4
  else none

/- The octets of one character are escaped together: `owed` of them have still to follow. -/
def uriFrom (verbatim : Bool) (owed : Nat) : List Char → Option (Octets × List Char)
  | '%' :: a :: b :: cs => do
      let n := (← Text.hexDigit? a) * 16 + (← Text.hexDigit? b)
      let owed ← if owed = 0 then (width? n).map (· - 1)
        else if n / 64 = 2 then some (owed - 1) else none
      let (octets, rest) ← uriFrom verbatim owed cs
      some (UInt8.ofNat n :: octets, rest)
  | '%' :: _ => none
  | c :: cs =>
      if owed > 0 then none
      else if isUriChar verbatim c then do
        let (octets, rest) ← uriFrom verbatim 0 cs
        some (UInt8.ofNat c.toNat :: octets, rest)
      else some ([], c :: cs)
  | [] => if owed > 0 then none else some ([], [])

/- The part of a tag behind its handle. It may be empty only where something came before, and
a zero octet ends it. -/
def uri? (verbatim : Bool) (before : Bool) (cs : List Char) : Option (Octets × List Char) := do
  let (octets, rest) ← uriFrom verbatim 0 cs
  if before || !octets.isEmpty then some (octets.takeWhile (· ≠ 0), rest) else none

def octetsOf (cs : List Char) : Octets := ofText (String.ofList cs)

/- A tag as it stands in the text: its handle, empty if it has none, and what follows that. -/
structure Spelling where
  handle : List Char
  suffix : Octets
  deriving DecidableEq, Repr

def verbatim? (cs : List Char) : Option (Spelling × List Char) := do
  match ← uri? true false cs with
  | (octets, '>' :: rest) => some (⟨[], octets⟩, rest)
  | _ => none

/- The tag `!` alone has no handle. -/
def shorthand? (cs : List Char) : Option (Spelling × List Char) := do
  let (handle, rest) ← handle? cs
  if handle.length > 1 ∧ handle.getLast? = some '!' then
    let (suffix, rest) ← uri? false false rest
    some (⟨handle, suffix⟩, rest)
  else
    let (more, rest) ← uri? false true rest
    let suffix := octetsOf (handle.drop 1) ++ more
    some (if suffix.isEmpty then ⟨[], octetsOf ['!']⟩ else ⟨['!'], suffix⟩, rest)

def spelling? (flow : Bool) (cs : List Char) : Option (Spelling × List Char) := do
  let (s, rest) ← match cs with
    | '!' :: '<' :: cs => verbatim? cs
    | cs => shorthand? cs
  if wordEnds rest || (flow && rest.head? = some ',') then some (s, rest) else none

end Tag
end LintGate.Yaml
