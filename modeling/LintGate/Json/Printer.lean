import LintGate.Json.Value
import LintGate.Text.Hex
/-! JSON values as text: on one line without spaces, or with one item or member a line,
indented by two spaces a level. -/
namespace LintGate.Json

/- Only what JSON has to escape is escaped: the quote, the backslash and U+0000 to U+001F. -/
def escapeChar (c : Char) : List Char :=
  if c == '\x22' then ['\\', '\x22']
  else if c == '\\' then ['\\', '\\']
  else if c == '\x08' then ['\\', 'b']
  else if c == '\t' then ['\\', 't']
  else if c == '\n' then ['\\', 'n']
  else if c == '\x0c' then ['\\', 'f']
  else if c == '\r' then ['\\', 'r']
  else if c.toNat < 0x20 then
    ['\\', 'u', '0', '0', Text.hexDigit (c.toNat / 16), Text.hexDigit (c.toNat % 16)]
  else [c]

def quoteChars (cs : List Char) : List Char := '\x22' :: (cs.flatMap escapeChar ++ ['\x22'])

def quote (s : String) : String := String.ofList (quoteChars s.toList)

/- A string that is no text is written as a lone half of a surrogate pair, which no text is. -/
def loneSurrogate : String := "\"\\ud800\""

def quoteKey : Option String → String
  | some k => quote k
  | none => loneSurrogate

namespace Value

def margin (depth : Nat) : String := String.ofList (List.replicate (2 * depth) ' ')

mutual
def compact : Value → String
  | null => "null"
  | boolean b => if b then "true" else "false"
  | number s => s
  | text s => quote s
  | illFormed => loneSurrogate
  | array items => "[" ++ String.intercalate "," (compactItems items) ++ "]"
  | object members => "\x7b" ++ String.intercalate "," (compactMembers members) ++ "\x7d"

def compactItems : List Value → List String
  | [] => []
  | v :: vs => compact v :: compactItems vs

def compactMembers : List (Option String × Value) → List String
  | [] => []
  | (k, v) :: ms => (quoteKey k ++ ":" ++ compact v) :: compactMembers ms
end

mutual
def prettyAt (depth : Nat) : Value → String
  | null => "null"
  | boolean b => if b then "true" else "false"
  | number s => s
  | text s => quote s
  | illFormed => loneSurrogate
  | array [] => "[]"
  | array (v :: vs) =>
      "[\n" ++ String.intercalate ",\n" (prettyItems (depth + 1) (v :: vs)) ++
        "\n" ++ margin depth ++ "]"
  | object [] => "\x7b\x7d"
  | object (m :: ms) =>
      "\x7b\n" ++ String.intercalate ",\n" (prettyMembers (depth + 1) (m :: ms)) ++
        "\n" ++ margin depth ++ "\x7d"

def prettyItems (depth : Nat) : List Value → List String
  | [] => []
  | v :: vs => (margin depth ++ prettyAt depth v) :: prettyItems depth vs

def prettyMembers (depth : Nat) : List (Option String × Value) → List String
  | [] => []
  | (k, v) :: ms =>
      (margin depth ++ quoteKey k ++ ": " ++ prettyAt depth v) :: prettyMembers depth ms
end

def pretty (v : Value) : String := prettyAt 0 v

end Value
end LintGate.Json
