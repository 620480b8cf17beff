/-
  Files and directories as a value.

  A `FileTree` is a file with its bytes or a directory with named entries in the order of their
  names.  A place in it is a list of names from the root.  `put` creates the directories that are
  missing on its way; the only thing that can stop it is a file where a directory has to be
  (`Clear`).
-/
import ActorScript.Dict

namespace ActorScript

/-- A file, or a directory with everything in it. -/
inductive FileTree
  | file (content : ByteArray)
  | directory (entries : List (String × FileTree))

namespace FileTree

instance : Inhabited FileTree := ⟨directory []⟩

/-- Whether this is a directory. -/
def isDirectory : FileTree → Bool
  | directory _ => true
  | file _ => false

/-- What is at a place. -/
def get? : FileTree → List String → Option FileTree
  | t, [] => some t
  | directory es, name :: rest => (Dict.find? name es).bind fun t => t.get? rest
  | file _, _ :: _ => none

/-- Puts something at a place, and directories on the way to it where there is nothing. -/
def put (t : FileTree) (place : List String) (new : FileTree) : FileTree :=
  match t, place with
  | _, [] => new
  | directory es, name :: rest =>
    directory (Dict.place name (((Dict.find? name es).getD default).put rest new) es)
  | file content, _ :: _ => file content
termination_by structural place

/-- Takes away what is at a place. -/
def erase : FileTree → List String → FileTree
  | directory es, [name] => directory (es.filter (·.1 ≠ name))
  | directory es, name :: rest =>
    match Dict.find? name es with
    | some t => directory (Dict.place name (t.erase rest) es)
    | none => directory es
  | t, _ => t

/-- Whether no file is in the way to a place. -/
def Clear : FileTree → List String → Prop
  | _, [] => True
  | directory es, name :: rest => ((Dict.find? name es).getD default).Clear rest
  | file _, _ :: _ => False

theorem get?_put_self {t : FileTree} {place : List String} (h : t.Clear place) (new : FileTree) :
    (t.put place new).get? place = some new := by
  induction place generalizing t with
  | nil => simp [put, get?]
  | cons name rest ih =>
    cases t with
    | file _ => exact h.elim
    | directory es => simp [put, get?, Dict.find?_place, ih h]

end FileTree

end ActorScript
