/-
  A file system with a working directory.

  Paths are followed piece by piece from the working directory or the root (`Disk.follow`).  Only
  a directory can be left, even by `..` or a slash at the end; so `a/..` leads nowhere if there is
  no `a`, or if it is a file.
-/
import ActorScript.FileTree
import ActorScript.Path

namespace ActorScript

/-- Why a text cannot be read from a path. -/
inductive ReadFault
  | missing
  | directory
  | tooLong
  | notText
deriving DecidableEq, Repr, Inhabited

/-- The wording of a fault. -/
def ReadFault.message : ReadFault → String
  | missing => "no such file or directory"
  | directory => "is a directory"
  | tooLong => "file name too long"
  | notText => "not valid UTF-8 text"

/-- All files, and the place of the working directory. -/
structure Disk where
  root : FileTree := default
  workingDirectory : List String := []
deriving Inhabited

namespace Disk

/-- Whether there is a directory at a place. -/
def hasDirectory (d : Disk) (place : List String) : Bool :=
  (d.root.get? place).any (·.isDirectory)

/-- The place that a path starts from. -/
def base (d : Disk) (path : String) : List String :=
  if Path.isAbsolute path then [] else d.workingDirectory

/-- The place that some pieces lead to from another one, if everything on the way is there. -/
def follow (d : Disk) (place : List String) : List String → Option (List String)
  | [] => some place
  | piece :: rest =>
    if d.hasDirectory place then
      if Path.stays piece then d.follow place rest
      else if piece = ".." then d.follow place.dropLast rest
      else if (d.root.get? (place ++ [piece])).isSome then d.follow (place ++ [piece]) rest
      else none
    else none

/-- The place that a path leads to, if there is something. -/
def locate? (d : Disk) (path : String) : Option (List String) :=
  if Path.isUsable path then d.follow (d.base path) (Path.pieces path) else none

/-- What a path leads to. -/
def get? (d : Disk) (path : String) : Option FileTree := (d.locate? path).bind d.root.get?

/-- The text of a file with this path and content. -/
def textOf (path : String) (content : ByteArray) : Except ReadFault String :=
  if Path.isLong path then .error .tooLong
  else (String.fromUTF8? content).elim (.error .notText) .ok

/-- The text of the file that a path leads to. -/
def readText (d : Disk) (path : String) : Except ReadFault String :=
  match d.get? path with
  | none => .error .missing
  | some (.directory _) => .error .directory
  | some (.file content) => textOf path content

/-- Creates the directories that are missing on some steps from a place, and gives the place they
    lead to; nothing if a file is in the way or a name is too long. -/
def createSteps (d : Disk) (place : List String) : List String → Disk × Option (List String)
  | [] => (d, if d.hasDirectory place then some place else none)
  | step :: rest =>
    if step = ".." then d.createSteps place.dropLast rest
    else if Path.isLongName step then (d, none)
    else
      let next := place ++ [step]
      match d.root.get? next with
      | some (.file _) => (d, none)
      | some (.directory _) => d.createSteps next rest
      | none => createSteps { d with root := d.root.put next default } next rest

/-- Creates the directory that a path leads to, and those on the way to it; gives its place if it
    is there in the end. -/
def createDirectory (d : Disk) (path : String) : Disk × Option (List String) :=
  if Path.isPassable path then d.createSteps (d.base path) (Path.steps path) else (d, none)

/-- The place of the file that writing to a path would create or replace. -/
def target? (d : Disk) (path : String) : Option (List String) := do
  let name ← (Path.pieces path).getLast?
  if !Path.isUsable path || Path.stays name || name = ".." then none
  else
    let place ← d.follow (d.base path) (Path.pieces path).dropLast
    match d.root.get? (place ++ [name]) with
    | some (.directory _) => none
    | some (.file _) => some (place ++ [name])
    | none => if d.hasDirectory place then some (place ++ [name]) else none

/-- The disk after writing a file, if that is possible. -/
def write? (d : Disk) (path : String) (content : ByteArray) : Option Disk :=
  (d.target? path).map fun place => { d with root := d.root.put place (.file content) }

/-- The disk after removing a file, if there is one. -/
def remove? (d : Disk) (path : String) : Option Disk := do
  let place ← d.locate? path
  match d.root.get? place with
  | some (.file _) => some { d with root := d.root.erase place }
  | _ => none

/-! ## Walking through a directory -/

/-- What there is on a walk through everything below a directory. -/
inductive Found
  /-- A file: the names on the way to it from the directory, its path and its content. -/
  | file (place : List String) (path : String) (content : ByteArray)
  /-- A directory that cannot be listed because its path is too long. -/
  | closed (path : String)

mutual

/-- A walk through a directory that has this path, in the order of the names; `place` is where
    the walk has got to. -/
def walk (place : List String) (path : String) : FileTree → List Found
  | .file content => [.file place path content]
  | .directory es => if Path.isLong path then [.closed path] else walkEntries place path es

/-- A walk through some entries of a directory that has this path. -/
def walkEntries (place : List String) (path : String) : List (String × FileTree) → List Found
  | [] => []
  | (name, t) :: rest =>
    walk (place ++ [name]) (Path.join path name) t ++ walkEntries place path rest

end

end Disk

end ActorScript
