/-
  The script checker as a program.

  It fetches the file or directory that the arguments name into a `Disk`, lets `CommandLine.run`
  find the answer, and prints it.
-/
import ActorScript.CommandLine

namespace ActorScript

/-- The file or directory at a path, with everything in it that is a file or a directory. -/
partial def fetch (path : String) : IO FileTree := do
  let here ← IO.FS.realPath path
  if ← here.isDir then
    let mut entries := []
    for entry in ← here.readDir do
      match (← entry.path.symlinkMetadata).type with
      | .dir | .file => entries := Dict.place entry.fileName (← fetch entry.path.toString) entries
      | _ => pure ()
    return .directory entries
  else return .file (← IO.FS.readBinFile here)

/-- A disk with nothing on it but the working directory and what a path leads to. -/
def diskFor (path : Option String) : IO Disk := do
  let workingDirectory := Path.steps (← IO.currentDir).toString
  let disk : Disk := { root := FileTree.put default workingDirectory default, workingDirectory }
  let some path := path | return disk
  try
    let tree ← fetch path
    match disk.createDirectory path with
    | (disk, some place) => return { disk with root := disk.root.put place tree }
    | (disk, none) => return disk
  catch _ => return disk

/-- The path that a request is about. -/
def CommandLine.Request.path? : CommandLine.Request → Option String
  | .check path | .dump path => some path
  | .help => none

/-- Answers the arguments; after wrong ones the usage is printed as an error message. -/
def answerArguments (args : List String) : IO UInt32 := do
  let request := CommandLine.Request.ofArguments? false args
  let answer := CommandLine.run (← diskFor (request.bind (·.path?))) args
  IO.print answer.output
  if request.isNone then IO.eprint CommandLine.Answer.usage.output
  return answer.exitCode.toUInt32

end ActorScript

/-- The program. -/
def main (args : List String) : IO UInt32 := ActorScript.answerArguments args
