import LintGate.Json.Token
import LintGate.Text.Decimal
/-! JSON values and how a sequence of words makes one up. -/
namespace LintGate.Json

/- A string literal that escapes half of a surrogate pair alone is no text. It may stand
where a value is passed over, so it is kept as `illFormed`, and as `none` where it is a key. -/
inductive Value
  | null
  | boolean (b : Bool)
  | number (spelling : String)
  | text (s : String)
  | illFormed
  | array (items : List Value)
  | object (members : List (Option String × Value))
  deriving Repr

namespace Value

def ofNat (n : Nat) : Value := number (Text.decimal n)

def ofFields (fields : List (String × Value)) : Value :=
  object (fields.map fun (k, v) => (some k, v))

def ofPieces (ps : List Piece) : Value :=
  match Piece.join? ps with
  | some cs => text (String.ofList cs)
  | none => illFormed

/- A natural number in plain digits. `-0`, `1.0` and `1e0` are not. -/
def natural? : Value → Option Nat
  | number s => Text.digits? s
  | _ => none

/-! ### From words to a value -/

inductive Frame
  | items (before : List Value)
  | members (before : List (Option String × Value)) (key : Option String)
  deriving Repr

inductive Await
  | value (frames : List Frame)
  | itemOrClose (frames : List Frame)
  | keyOrClose (frames : List Frame)
  | key (before : List (Option String × Value)) (frames : List Frame)
  | colon (before : List (Option String × Value)) (key : Option String) (frames : List Frame)
  | afterItem (before : List Value) (frames : List Frame)
  | afterMember (before : List (Option String × Value)) (frames : List Frame)
  | done (v : Value)
  deriving Repr

def complete (v : Value) : List Frame → Await
  | [] => .done v
  | .items before :: frames => .afterItem (v :: before) frames
  | .members before key :: frames => .afterMember ((key, v) :: before) frames

def begin (frames : List Frame) : Token → Option Await
  | .openArray => some (.itemOrClose frames)
  | .openObject => some (.keyOrClose frames)
  | .null => some (complete null frames)
  | .boolean b => some (complete (boolean b) frames)
  | .number cs => some (complete (number (String.ofList cs)) frames)
  | .string ps => some (complete (ofPieces ps) frames)
  | .closeArray | .closeObject | .comma | .colon => none

def keyOf (ps : List Piece) : Option String := (Piece.join? ps).map String.ofList

def advance : Await → Token → Option Await
  | .value frames, t => begin frames t
  | .itemOrClose frames, .closeArray => some (complete (array []) frames)
  | .itemOrClose frames, t => begin (.items [] :: frames) t
  | .keyOrClose frames, .closeObject => some (complete (object []) frames)
  | .keyOrClose frames, .string ps => some (.colon [] (keyOf ps) frames)
  | .key before frames, .string ps => some (.colon before (keyOf ps) frames)
  | .colon before key frames, .colon => some (.value (.members before key :: frames))
  | .afterItem before frames, .comma => some (.value (.items before :: frames))
  | .afterItem before frames, .closeArray => some (complete (array before.reverse) frames)
  | .afterMember before frames, .comma => some (.key before frames)
  | .afterMember before frames, .closeObject => some (complete (object before.reverse) frames)
  | _, _ => none

def buildFrom : Await → List Token → Option Value
  | .done v, [] => some v
  | _, [] => none
  | a, t :: ts => (advance a t).bind (buildFrom · ts)

def ofTokens? (ts : List Token) : Option Value := buildFrom (.value []) ts

/- The one value that a text spells, with nothing but JSON spaces around it. -/
def read? (s : String) : Option Value := (Token.scan? s.toList).bind ofTokens?

end Value
end LintGate.Json
