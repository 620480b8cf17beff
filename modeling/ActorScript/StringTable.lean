/-
  The texts of a game, by key.

  A text is a template whose placeholders are filled in when it is asked for.  Tables are read
  from a directory of JSON files, each of them an object of texts; the key of a text is the path
  of its file below that directory with dots for slashes, a dot, and the text's name in the file.
-/
import ActorScript.Disk
import ActorScript.Error
import ActorScript.Json.Reader
import ActorScript.StringTable.Template

namespace ActorScript

/-- Templates by key. -/
structure StringTable where
  entries : Dict String := .empty
deriving DecidableEq, Repr, Inhabited

namespace StringTable

/-- The template under a key. -/
def get? (t : StringTable) (key : String) : Option String := t.entries.get? key

/-- The table in which `key` has this template. -/
def insert (t : StringTable) (key template : String) : StringTable :=
  ⟨t.entries.insert key template⟩

/-- The number of templates. -/
def size (t : StringTable) : Nat := t.entries.size

/-- Whether there are no templates. -/
def isEmpty (t : StringTable) : Bool := t.entries.isEmpty

/-- The text under a key, for some arguments. -/
def format (t : StringTable) (key : String) (args : List Value) : Except Error String :=
  match t.get? key with
  | none => .error (.stringNotFound key)
  | some template =>
    match Template.excess? template args.length with
    | some i => .error (.invalidArgument "getString" (.placeholder key i args.length))
    | none => .ok (Template.fill template args)

/-! ## Reading a directory -/

/-- The texts in a document; all of its members have to be texts. -/
def ofJson? (j : Json) : Option (Dict String) := do
  let texts ← (← j.members?).mapM fun m => m.2.string?.map (m.1, ·)
  return .ofList texts

/-- The file name extension of files with texts. -/
def fileExtension : String := "json"

/-- A file name without its extension.  One that would mean the directory above keeps a dot. -/
def stem? (name : String) : Option String :=
  (Path.stem? fileExtension name).map fun stem => if stem = "." then ".." else stem

/-- What the keys of a file start with, given its place below the directory, and nothing if it is
    not a file with texts.  Slashes of either kind become dots. -/
def keyPrefix? (place : List String) : Option String := do
  let stem ← stem? (← place.getLast?)
  let names := place.dropLast ++ [stem]
  return (".".intercalate names).map fun c => if c = '\\' then '.' else c

/-- Adds the texts of a file under keys that start with `start`. -/
def addFile (t : StringTable) (start path : String) (content : ByteArray) :
    Except Error StringTable :=
  match Disk.textOf path content with
  | .error fault => .error (.scriptRead path fault.message)
  | .ok text =>
    match (Json.parse? text).bind ofJson? with
    | none => .error (.scriptRead path "not an object of texts")
    | some texts => .ok (texts.entries.foldl (fun t p => t.insert (start ++ "." ++ p.1) p.2) t)

/-- Adds the texts of the files among what was found below a directory; the first file that cannot
    be read stops it. -/
def addFound (t : StringTable) : List Disk.Found → Except Error StringTable
  | [] => .ok t
  | .closed _ :: rest => addFound t rest
  | .file place path content :: rest =>
    match keyPrefix? place with
    | none => addFound t rest
    | some start =>
      match t.addFile start path content with
      | .ok t => addFound t rest
      | .error e => .error e

/-- The table of a directory and everything below it; the empty table if there is no such
    directory.  Instead of a directory there may be a single file with texts, whose keys start
    with a dot. -/
def load (d : Disk) (root : String) : Except Error StringTable :=
  match d.get? root with
  | none => .ok {}
  | some (.directory es) => addFound {} (Disk.walkEntries [] root es)
  | some (.file content) =>
    if ((Path.steps root).getLast?.bind stem?).isSome then addFile {} "" root content else .ok {}

end StringTable

end ActorScript
