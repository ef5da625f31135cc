import LintGate.Program
/-! The command itself. It looks at the files that its words name before anything is decided,
and takes what the engine printed from its standard input instead of starting the engine. -/
namespace LintGate.Main

def fault : IO.Error → Fault
  | .noFileOrDirectory .. => .notFound
  | .permissionDenied .. => .denied
  | e => .described (toString e)

def probe (path : String) : IO (Except Fault Bool) := do
  try
    let _ ← IO.FS.Handle.mk path .read
    return .ok true
  catch e =>
    match fault e with
    | .notFound => return .ok false
    | f => return .error f

def readFile (path : String) : IO (Except Fault (List UInt8)) := do
  try
    return .ok (← IO.FS.readBinFile path).toList
  catch e => return .error (fault e)

/- The host as far as the words need it: whatever they do not name is not there. -/
def observe (argv : List String) : IO Host := do
  let invocation := (CommandLine.read argv).toOption
  let files := (invocation.map Invocation.files).getD []
  let settings := (invocation.bind fun i => i.options.config).toList
  let probed ← files.mapM fun path => return (path, ← probe path)
  let contents ← settings.mapM fun path => return (path, ← readFile path)
  let report ← (← IO.getStdin).readToEnd
  return {
    directory := (← IO.currentDir).toString
    colors := (← IO.getEnv "NO_COLOR").isNone
    probe := fun path => (probed.lookup path).getD (.ok false)
    read := fun path => (contents.lookup path).getD (.error .notFound)
    scratch := ⟨"/tmp", none, []⟩
    begun := none
    launch := fun _ => .ok ⟨Text.Utf8.encode report, [], .exited 0⟩ }

end LintGate.Main

def main (argv : List String) : IO UInt32 := do
  let e := LintGate.Program.run (← LintGate.Main.observe argv) argv
  (← IO.getStdout).putStr e.stdout
  (← IO.getStderr).putStr e.stderr
  return e.code.toUInt32
