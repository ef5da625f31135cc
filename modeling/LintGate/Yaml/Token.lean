import LintGate.Yaml.Tag
/-! The words of a YAML stream. The beginnings and ends of block collections are words too,
though they are written by indentation only. -/
namespace LintGate.Yaml

inductive Style
  | plain | quoted | literal | folded
  deriving DecidableEq, Repr

inductive Token
  | version (major minor : Nat)
  | tagHandle (handle : List Char) (start : Octets)
  | documentStart | documentEnd
  | blockSequence | blockMapping | blockEnd
  | flowSequence | flowSequenceEnd | flowMapping | flowMappingEnd
  | blockEntry | flowEntry | key | value
  | reference (name : String)
  | anchor (name : String)
  | tag (spelling : Tag.Spelling)
  | scalar (style : Style) (text : String)
  deriving DecidableEq, Repr

namespace Directive

def digits? (cs : List Char) : Option (Nat × List Char) :=
  let digits := cs.takeWhile Char.isDigit
  if digits.isEmpty || digits.length > 9 then none
  else some (digits.foldl (fun n c => n * 10 + (c.toNat - 48)) 0, cs.dropWhile Char.isDigit)

def version? (cs : List Char) : Option (Token × List Char) := do
  match ← digits? (cs.dropWhile isSpace) with
  | (major, '.' :: cs) =>
      let (minor, cs) ← digits? cs
      some (.version major minor, cs)
  | _ => none

/- A handle has to be complete here. -/
def tagHandle? (cs : List Char) : Option (Token × List Char) := do
  let (handle, cs) ← Tag.handle? (cs.dropWhile isSpace)
  if handle.length > 1 ∧ handle.getLast? ≠ some '!' then none
  else if !(cs.head?.any isSpace) then none
  else
    let (start, cs) ← Tag.uri? true false (cs.dropWhile isSpace)
    if wordEnds cs then some (.tagHandle handle start, cs) else none

/- A directive from behind its `%` on, up to the end of its line. -/
def read? (cs : List Char) : Option (Token × List Char) := do
  let name := cs.takeWhile isNameChar
  let cs := cs.dropWhile isNameChar
  if name.isEmpty || !wordEnds cs then none
  else
    let (t, cs) ← if name = "YAML".toList then version? cs
      else if name = "TAG".toList then tagHandle? cs
      else none
    let cs := cs.dropWhile isSpace
    let cs := if cs.head? = some '#' then cs.dropWhile (!isBreak ·) else cs
    if cs.isEmpty || cs.head?.any isBreak then some (t, cs) else none

end Directive

/- A name behind `&` or `*`, which something that cannot belong to a name has to follow. -/
def anchorName? (cs : List Char) : Option (String × List Char) :=
  let name := cs.takeWhile isNameChar
  let rest := cs.dropWhile isNameChar
  if !name.isEmpty && (wordEnds rest || rest.head?.any ("?:,]\x7d%@\x60".toList.contains ·)) then
    some (String.ofList name, rest)
  else none

end LintGate.Yaml
