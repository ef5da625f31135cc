import LintGate.Text.Decimal
/-! What can go wrong between the program and the system it runs on, and how that is worded. -/
namespace LintGate

inductive Fault
  | notFound | denied | notDirectory | isDirectory | nameTooLong | linkLoop
  | nulInName | nulInArguments | notUtf8 | noCommand
  | described (words : String)
  deriving DecidableEq, Repr

namespace Fault

def number? : Fault → Option Nat
  | notFound => some 2
  | denied => some 13
  | notDirectory => some 20
  | isDirectory => some 21
  | nameTooLong => some 36
  | linkLoop => some 40
  | _ => none

def words : Fault → String
  | notFound => "No such file or directory"
  | denied => "Permission denied"
  | notDirectory => "Not a directory"
  | isDirectory => "Is a directory"
  | nameTooLong => "File name too long"
  | linkLoop => "Too many levels of symbolic links"
  | nulInName => "file name contained an unexpected NUL byte"
  | nulInArguments => "nul byte found in provided data"
  | notUtf8 => "stream did not contain valid UTF-8"
  | noCommand => "empty ESLint command"
  | described words => words

def message (f : Fault) : String :=
  match f.number? with
  | some n => f.words ++ " (os error " ++ Text.decimal n ++ ")"
  | none => f.words

end Fault
end LintGate
