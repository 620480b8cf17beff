/-
  Checking scripts without running them.

  A script that cannot be read is an error; one that can is searched for calls of functions that
  are not built in, which are warnings: a game may know more functions.
-/
import ActorScript.Builtin
import ActorScript.Parser.Declaration

namespace ActorScript.Lint

/-- How serious a finding is. -/
inductive Severity
  | error
  | warning
deriving DecidableEq, Repr, Inhabited

/-- Something found in a script. -/
structure Diagnostic where
  path : String
  location : Location
  severity : Severity
  code : String
  message : String
deriving DecidableEq, Repr, Inhabited

/-- The line that reports a finding. -/
def Diagnostic.text (d : Diagnostic) : String :=
  d.path ++ ":" ++ d.location.text ++ ": " ++
    (match d.severity with | .error => "" | .warning => "warning ") ++ d.code ++ " " ++ d.message

/-- The finding that an error at some place amounts to. -/
def Diagnostic.ofError (path : String) (severity : Severity) (l : Location) (e : Error) :
    Diagnostic := { path, location := l, severity, code := e.code, message := e.detail }

/-- Everything found in the text of a script. -/
def diagnose (path source : String) : List Diagnostic :=
  match Script.parse source with
  | .error e => [.ofError path .error (e.location?.getD .start) e]
  | .ok script =>
    (script.calledFunctions.filter (!Builtin.isKnown ·.1)).map fun c =>
      .ofError path .warning c.2 (.unknownFunction c.1)

/-- What was found in some scripts. -/
structure Report where
  files : Nat
  diagnostics : List Diagnostic
deriving DecidableEq, Repr, Inhabited

namespace Report

/-- Checks scripts, given their texts by path. -/
def ofSources (sources : Dict String) : Report where
  files := sources.size
  diagnostics := sources.entries.flatMap fun s => diagnose s.1 s.2

/-- The number of findings of some severity. -/
def count (r : Report) (severity : Severity) : Nat :=
  (r.diagnostics.filter (·.severity = severity)).length

/-- Whether there are no errors; warnings do no harm. -/
def isClean (r : Report) : Bool := r.count .error = 0

/-- The lines of the report: one for each finding, a summary and the verdict. -/
def lines (r : Report) : List String :=
  r.diagnostics.map Diagnostic.text ++
    ["checked " ++ toString r.files ++ " file(s): " ++ toString (r.count .error) ++
        " error(s), " ++ toString (r.count .warning) ++ " warning(s)",
      if r.isClean then "RESULT:OK" else "RESULT:ERROR"]

end Report

end ActorScript.Lint
