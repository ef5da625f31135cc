import LintGate.Settings.Resolve
/-! The command line: options with a value, flags and files, read word by word. -/
namespace LintGate

/-! ### What can be said -/

inductive Choice
  | format | preset | engine | config
  deriving DecidableEq, Repr

inductive Flag
  | strict | localConfig | verbose | help | version
  deriving DecidableEq, Repr

namespace Choice

def name : Choice → String
  | format => "format"
  | preset => "preset"
  | engine => "eslint"
  | config => "config"

def all : List Choice := [format, preset, engine, config]

def ofName? (s : String) : Option Choice := all.find? fun c => c.name == s

end Choice

namespace Flag

def name : Flag → String
  | strict => "strict"
  | localConfig => "local-config"
  | verbose => "verbose"
  | help => "help"
  | version => "version"

def letter? : Flag → Option Char
  | verbose => some 'v'
  | help => some 'h'
  | version => some 'V'
  | strict | localConfig => none

def all : List Flag := [strict, localConfig, verbose, help, version]

def ofName? (s : String) : Option Flag := all.find? fun f => f.name == s

def ofLetter? (c : Char) : Option Flag := all.find? fun f => f.letter? == some c

end Flag

structure Invocation where
  files : List String
  options : Options
  verbose : Bool
  deriving DecidableEq, Repr

inductive Misuse
  | invalidValue | unknownArgument | argumentConflict | tooManyValues
  deriving DecidableEq, Repr

inductive Stop
  | help
  | version
  | misuse (m : Misuse)
  deriving DecidableEq, Repr

/-! ### Reading -/
namespace CommandLine

def conflict {α : Type} : Except Stop α := .error (.misuse .argumentConflict)

def invalid {α : Type} : Except Stop α := .error (.misuse .invalidValue)

def unknown {α : Type} : Except Stop α := .error (.misuse .unknownArgument)

def chosen (o : Options) : Choice → Option String
  | .format => o.format
  | .preset => o.preset
  | .engine => o.engine
  | .config => o.config

def withChoice (o : Options) (value : String) : Choice → Options
  | .format => { o with format := some value }
  | .preset => { o with preset := some value }
  | .engine => { o with engine := some value }
  | .config => { o with config := some value }

/- No option may be given twice, and a settings file has to have a name. -/
def choose (i : Invocation) (c : Choice) (value : String) : Except Stop Invocation :=
  if (chosen i.options c).isSome then conflict
  else if c = .config ∧ value = "" then invalid
  else .ok { i with options := withChoice i.options value c }

def raise (i : Invocation) : Flag → Except Stop Invocation
  | .strict =>
      if i.options.strict.isSome then conflict
      else .ok { i with options := { i.options with strict := some true } }
  | .localConfig =>
      if i.options.localConfig.isSome then conflict
      else .ok { i with options := { i.options with localConfig := some true } }
  | .verbose => if i.verbose then conflict else .ok { i with verbose := true }
  | .help => .error .help
  | .version => .error .version

/- An option whose value stands in a word of its own is looked at only when that word is
over. It is `pending` until then, with its value once that has come. -/
structure State where
  read : Invocation
  pending : Option (Choice × Option String)
  deriving DecidableEq, Repr

namespace State

def start : State := ⟨⟨[], .empty, false⟩, none⟩

def settle (s : State) : Except Stop Invocation :=
  match s.pending with
  | none => .ok s.read
  | some (_, none) => invalid
  | some (c, some value) => choose s.read c value

def option (s : State) (c : Choice) : Option String → Except Stop State
  | some value => do return ⟨← choose (← s.settle) c value, none⟩
  | none => do return ⟨← s.settle, some (c, none)⟩

def flag (s : State) (f : Flag) : Except Stop State := do
  return ⟨← raise (← s.settle) f, none⟩

def file (s : State) (path : String) : Except Stop State := do
  let i ← s.settle
  return ⟨{ i with files := i.files ++ [path] }, none⟩

def value (s : State) (w : String) : Except Stop State :=
  match s.pending with
  | some (c, none) => .ok ⟨s.read, some (c, some w)⟩
  | _ => s.file w

end State

def splitEquals (cs : List Char) : String × Option String :=
  (String.ofList (cs.takeWhile (· ≠ '=')),
    match cs.dropWhile (· ≠ '=') with
    | _ :: rest => some (String.ofList rest)
    | [] => none)

/- That a name is not known, or that a flag has a value, is told before what is pending. -/
def long (s : State) (cs : List Char) : Except Stop State :=
  let (name, attached) := splitEquals cs
  match Choice.ofName? name, Flag.ofName? name, attached with
  | some c, _, attached => s.option c attached
  | none, some _, some _ => .error (.misuse .tooManyValues)
  | none, some f, none => s.flag f
  | none, none, _ => unknown

def letter (s : State) (c : Char) : Except Stop State :=
  match Flag.ofLetter? c with
  | some f => s.flag f
  | none => unknown

def word (s : State) (w : String) : Except Stop State :=
  match w.toList with
  | '-' :: '-' :: cs => long s cs
  | '-' :: c :: cs => (c :: cs).foldlM letter s
  | _ => s.value w

/- Behind the word `--` every word is a file. -/
def words : State → List String → Except Stop Invocation
  | s, [] => s.settle
  | s, w :: ws =>
      if w = "--" then do (← ws.foldlM State.file s).settle
      else do words (← word s w) ws

def read (ws : List String) : Except Stop Invocation := words .start ws

end CommandLine
end LintGate
