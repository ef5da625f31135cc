import LintGate.Console
import LintGate.Report.Document
import LintGate.Selection
import LintGate.Settings
/-! One run: the files are looked for, those that are there are checked all at once, and the
report is followed by the verdict. -/
namespace LintGate

inductive Status
  | success | failure
  deriving DecidableEq, Repr

def Status.code : Status → UInt8
  | success => 0
  | failure => 1

/- How a run ended, what it had to tell, and the path lists it asked to be checked. -/
structure Outcome where
  status : Status
  events : List Event
  asked : List (List String)
  deriving DecidableEq, Repr

def Report.render (h : Host) (c : Checker) (format : Format) (r : Report) (s : Summary) :
    Except EngineError String :=
  match format.style? with
  | some style => c.style r style.name
  | none =>
      if format = .json then .ok (Report.Document.render r s)
      else .ok (Report.Plain.render h.directory h.colors r)

namespace Run

def skipped (s : Selection) : List Event :=
  s.missing.map Event.missing ++
    s.inaccessible.map fun (path, fault) => Event.inaccessible path fault.message

def verdict (p : Plan) (s : Summary) : Status :=
  if s.fails p.strictness then .failure else .success

def conclude (h : Host) (c : Checker) (p : Plan) (r : Report) : Status × List Event :=
  let s := Summary.ofReport r
  match r.render h c p.format s with
  | .ok text => (verdict p s, [.report text, .verdict s p.strictness])
  | .error e => (.failure, [.checkFailed e])

def check (h : Host) (c : Checker) (p : Plan) (paths : List String) : Status × List Event :=
  match c.check paths with
  | .ok r => conclude h c p r
  | .error e => (.failure, [.checkFailed e])

end Run

/- If no file is named that is the caller's mistake; if none of those named is there, there
is nothing to complain about. -/
def run (h : Host) (c : Checker) (p : Plan) (files : List String) : Outcome :=
  if files.isEmpty then ⟨.failure, [.noFiles], []⟩
  else
    let s := Selection.of h.probe files
    if s.present.isEmpty then ⟨.success, Run.skipped s ++ [.nothingToCheck], []⟩
    else
      let (status, events) := Run.check h c p s.present
      ⟨status, Run.skipped s ++ events, [s.present]⟩

end LintGate
