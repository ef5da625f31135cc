import LintGate.Text.Hex
import LintGate.Yaml.Plain
/-! Scalars in single or double quotes. No line inside them may begin with a document mark. -/
namespace LintGate.Yaml.Quoted

/-! ### Single quotes -/

/- A quote that stands for itself is written twice, so one that is not closes the scalar. -/
def singleFrom (closing : Bool) (text : List Char) (gap : Gap) (m : Mark) :
    List Char → Option ScalarRead
  | [] => if closing then some ⟨text, m, [], false⟩ else none
  | c :: cs =>
      if c == '\x27' then
        if closing then singleFrom false (text ++ ['\x27']) .empty (m.next c) cs
        else singleFrom true (text ++ gap.text) .empty (m.next c) cs
      else if closing then some ⟨text, m, c :: cs, false⟩
      else if m.column == 0 && atDocumentMark (c :: cs) then none
      else if isSpace c || isBreak c then singleFrom false text (gap.push c) (m.past c) cs
      else singleFrom false (text ++ gap.text ++ [c]) .empty (m.next c) cs

/-! ### Double quotes -/

inductive Mode
  | text
  | escape
  | hex (owed : Nat) (value : Nat)
  deriving DecidableEq, Repr

def simpleEscape? : Char → Option Char
  | '0' => some '\x00'
  | 'a' => some '\x07'
  | 'b' => some '\x08'
  | 't' => some '\t'
  | '\t' => some '\t'
  | 'n' => some '\n'
  | 'v' => some '\x0b'
  | 'f' => some '\x0c'
  | 'r' => some '\r'
  | 'e' => some '\x1b'
  | ' ' => some ' '
  | '\x22' => some '\x22'
  | '/' => some '/'
  | '\\' => some '\\'
  | 'N' => some '\u0085'
  | '_' => some '\u00a0'
  | 'L' => some '\u2028'
  | 'P' => some '\u2029'
  | _ => none

def hexEscape? : Char → Option Nat
  | 'x' => some 2
  | 'u' => some 4
  | 'U' => some 8
  | _ => none

def doubleFrom (mode : Mode) (text : List Char) (gap : Gap) (m : Mark) :
    List Char → Option ScalarRead
  | [] => none
  | c :: cs =>
      match mode with
      | .text =>
          if c == '\x22' then some ⟨text ++ gap.text, m.next c, cs, false⟩
          else if m.column == 0 && atDocumentMark (c :: cs) then none
          else if c == '\\' then doubleFrom .escape (text ++ gap.text) .empty (m.next c) cs
          else if isSpace c || isBreak c then doubleFrom .text text (gap.push c) (m.past c) cs
          else doubleFrom .text (text ++ gap.text ++ [c]) .empty (m.next c) cs
      | .escape =>
          if isBreak c then doubleFrom .text text .escaped m.newLine cs
          else match simpleEscape? c, hexEscape? c with
            | some e, _ => doubleFrom .text (text ++ [e]) .empty (m.next c) cs
            | none, some digits => doubleFrom (.hex digits 0) text .empty (m.next c) cs
            | none, none => none
      | .hex owed value =>
          match Text.hexDigit? c with
          | none => none
          | some d =>
              let value := value * 16 + d
              if owed ≤ 1 then
                match Text.charOf? value with
                | some e => doubleFrom .text (text ++ [e]) .empty (m.next c) cs
                | none => none
              else doubleFrom (.hex (owed - 1) value) text .empty (m.next c) cs

def read (single : Bool) (m : Mark) (cs : List Char) : Option ScalarRead :=
  if single then singleFrom false [] .empty m cs else doubleFrom .text [] .empty m cs

end LintGate.Yaml.Quoted
