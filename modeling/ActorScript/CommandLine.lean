/-
  The command line of the script checker.

  There are two commands: `check --scripts-dir DIRECTORY` checks all scripts below a directory,
  and `dump --file FILE` prints a parsed script as JSON.  Reading the arguments (`Request`) and
  carrying out what they ask for on a disk (`Request.run`) are both pure; what is left for the
  program is to fetch the files and to print.
-/
import ActorScript.Json.Printer
import ActorScript.Lint
import ActorScript.Script.Json
import ActorScript.ScriptCache

namespace ActorScript.CommandLine

/-! ## Arguments -/

/-- The form of an argument. -/
inductive Argument
  /-- `--`, after which nothing is an option. -/
  | escape
  /-- `--name` or `--name=value`. -/
  | option (name : String) (value : Option String)
  /-- A hyphen and letters. -/
  | letters (first : Char)
  /-- Anything else, a single hyphen included. -/
  | plain
deriving DecidableEq, Repr, Inhabited

/-- The form of an argument with these characters. -/
def Argument.ofChars : List Char → Argument
  | ['-', '-'] => escape
  | '-' :: '-' :: cs =>
    option (String.ofList (cs.takeWhile (· ≠ '=')))
      (match cs.dropWhile (· ≠ '=') with
        | [] => none
        | _ :: value => some (String.ofList value))
  | '-' :: c :: _ => letters c
  | _ => plain

/-- The form of an argument. -/
def Argument.ofText (arg : String) : Argument := ofChars arg.toList

/-- What the arguments ask for. -/
inductive Request
  | check (directory : String)
  | dump (file : String)
  | help
deriving DecidableEq, Repr, Inhabited

namespace Request

/-- Reads the arguments of a command with one option, which has to be given exactly once.
    `value` is what was given for it so far, and `verbose` whether that flag was. -/
def ofOptions? (name : String) (command : String → Request) (value : Option String)
    (verbose : Bool) : List String → Option Request
  | [] => value.map command
  | arg :: rest =>
    match Argument.ofText arg with
    | .escape => if rest.isEmpty then value.map command else none
    | .letters 'h' | .option "help" none => some help
    | .option "verbose" none =>
      if verbose then none else ofOptions? name command value true rest
    | .option n (some v) =>
      if n = name ∧ value = none then ofOptions? name command (some v) verbose rest else none
    | .option n none =>
      match rest with
      | v :: rest =>
        if n = name ∧ value = none ∧ Argument.ofText v = .plain then
          ofOptions? name command (some v) verbose rest
        else none
      | [] => none
    | _ => none

/-- Reads the arguments of the program; `none` if they are wrong. -/
def ofArguments? (verbose : Bool) : List String → Option Request
  | [] => none
  | "check" :: rest => ofOptions? "scripts-dir" check none false rest
  | "dump" :: rest => ofOptions? "file" dump none false rest
  | ["help"] | ["help", "check"] | ["help", "dump"] | ["help", "help"] => some help
  | arg :: rest =>
    match Argument.ofText arg with
    | .letters 'h' | .option "help" none => some help
    | .option "verbose" none => if verbose then none else ofArguments? true rest
    | _ => none

end Request

/-! ## Answers -/

/-- What the program prints and how it exits. -/
structure Answer where
  exitCode : Nat
  output : String
deriving DecidableEq, Repr, Inhabited

namespace Answer

/-- An answer with some lines of output. -/
def ofLines (exitCode : Nat) (lines : List String) : Answer :=
  ⟨exitCode, String.join (lines.map (· ++ "\n"))⟩

/-- The answer to wrong arguments. -/
def refused : Answer := ⟨2, ""⟩

/-- The answer to a request for help. -/
def usage : Answer :=
  .ofLines 0 ["usage: check --scripts-dir DIRECTORY", "       dump --file FILE"]

end Answer

/-- Why a request cannot be carried out. -/
structure Failure where
  code : String
  message : String
deriving DecidableEq, Repr, Inhabited

/-- The answer to a request that cannot be carried out. -/
def Failure.answer (f : Failure) : Answer :=
  .ofLines 1 ["RESULT:ERROR", "ERROR_CODE:" ++ f.code,
    "ERROR_MSG_JSON:" ++ Json.quote f.message]

/-- The failure to read a script. -/
def Failure.ofReadFault (fault : ReadFault) : Failure := ⟨"CLI_SOURCE_READ", fault.message⟩

/-! ## Requests -/

/-- The path with the working directory in front of it, unless it starts at the root. -/
def absolute (d : Disk) (path : String) : String :=
  Path.join ("/" ++ "/".intercalate d.workingDirectory) path

/-- The failure to look into a directory. -/
def Failure.ofClosed (path : String) : Failure :=
  ⟨"CLI_SOURCE_SCAN", path ++ ": " ++ ReadFault.tooLong.message⟩

/-- The texts of the scripts among what was found below a directory, by path from there. -/
def sourcesOf : List Disk.Found → Except Failure (Dict String)
  | [] => .ok .empty
  | .closed path :: _ => .error (.ofClosed path)
  | .file place path content :: rest =>
    if (place.getLast?.bind (Path.stem? Script.fileExtension)).isSome then
      match Disk.textOf path content with
      | .error fault => .error (.ofReadFault fault)
      | .ok text => (sourcesOf rest).map (·.insert ("/".intercalate place) text)
    else sourcesOf rest

/-- The texts of all scripts below a directory, by path from there; there has to be one. -/
def scriptsBelow (d : Disk) (directory : String) : Except Failure (Dict String) :=
  match d.get? directory with
  | none => .error ⟨"CLI_SOURCE_NOT_FOUND", "scripts-dir does not exist: " ++ directory⟩
  | some (.file _) =>
    .error ⟨"CLI_SOURCE_NOT_DIR", "scripts-dir is not a directory: " ++ directory⟩
  | some (.directory es) =>
    match sourcesOf (Disk.walkEntries [] directory es) with
    | .error f => .error f
    | .ok sources =>
      if sources.isEmpty then
        .error ⟨"CLI_SOURCE_EMPTY",
          "no ." ++ Script.fileExtension ++ " files found under " ++ directory⟩
      else .ok sources

/-- Checks the scripts below a directory. -/
def runCheck (d : Disk) (directory : String) : Except Failure Answer :=
  (scriptsBelow d (absolute d directory)).map fun sources =>
    let report := Lint.Report.ofSources sources
    .ofLines (if report.isClean then 0 else 1) report.lines

/-- Prints a parsed script. -/
def runDump (d : Disk) (file : String) : Except Failure Answer :=
  match d.readText file with
  | .error fault => .error (.ofReadFault fault)
  | .ok source =>
    match Script.parse source with
    | .error e => .error ⟨e.code, (e.inFile file).message⟩
    | .ok script => .ok (.ofLines 0 [script.toJson.pretty])

/-- Carries out a request. -/
def Request.run (d : Disk) : Request → Answer
  | .check directory => answerOf (runCheck d directory)
  | .dump file => answerOf (runDump d file)
  | .help => .usage
where
  /-- The answer for a result. -/
  answerOf : Except Failure Answer → Answer
    | .ok a => a
    | .error f => f.answer

/-- What the program answers to its arguments. -/
def run (d : Disk) (args : List String) : Answer :=
  (Request.ofArguments? false args).elim .refused (·.run d)

end ActorScript.CommandLine
