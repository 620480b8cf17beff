/-
  The saved values of a game.

  All actors share one store.  It may be kept in a file: a JSON object with one member for every
  entry.  The file is read when the store is opened and written only by `flush`; in between the
  store is `dirty` if it holds something that the file may not.
-/
import ActorScript.Action
import ActorScript.Disk
import ActorScript.Json.Printer
import ActorScript.Json.Reader
import ActorScript.Value.Json

namespace ActorScript

/-- The file that a store is kept in. -/
structure SaveFile where
  path : String
  /-- Whether there are changes that have not been written. -/
  dirty : Bool := false
deriving DecidableEq, Repr, Inhabited

/-- Saved values by key. -/
structure SaveStore where
  values : Dict Value := .empty
  /-- Where the values are kept; without a file they last as long as the store. -/
  file : Option SaveFile := none
deriving DecidableEq, Repr, Inhabited

namespace SaveStore

/-- The value saved under a key. -/
def get? (s : SaveStore) (key : String) : Option Value := s.values.get? key

/-- Whether there are changes that have not been written to the file of the store. -/
def isDirty (s : SaveStore) : Bool := s.file.any (·.dirty)

/-- Saves a value.  Saving what is there already is no change. -/
def set (s : SaveStore) (key : String) (v : Value) : SaveStore :=
  if s.get? key = some v then s
  else
    { values := s.values.insert key v
      file := s.file.map fun f => { f with dirty := true } }

theorem get?_set (s : SaveStore) (key key' : String) (v : Value) :
    (s.set key v).get? key' = if key = key' then some v else s.get? key' := by
  unfold set
  split
  · split
    · simp_all
    · rfl
  · simp [get?, Dict.get?_insert]

/-! ## The file of a store -/

/-- The values as a document. -/
def toJson (values : Dict Value) : Json :=
  .object (values.entries.map fun p => (p.1, p.2.toJson))

/-- The values in a document.  If a key occurs twice, the later value counts. -/
def ofJson? (j : Json) : Option (Dict Value) := do
  let entries ← (← j.members?).mapM fun m => (Value.ofJson? false m.2).map (m.1, ·)
  return .ofList entries

/-- A failure to read or write the file of a store. -/
def failure (path reason : String) : Error := .saveStore (path ++ ": " ++ reason)

/-- Opens the store that is kept at a path; if nothing is there, it is empty. -/
def load (d : Disk) (path : String) : Except Error SaveStore :=
  match d.readText path with
  | .error .missing => .ok { file := some { path } }
  | .error fault => .error (failure path fault.message)
  | .ok text =>
    match (Json.parse? text).bind ofJson? with
    | some values => .ok { values, file := some { path } }
    | none => .error (failure path "not an object of values")

/-- Writes the store to its file, if it has one and there are changes.  If that fails, the
    changes are still to be written. -/
def flush : Action (SaveStore × Disk) Unit := fun (s, d) =>
  match s.file with
  | some ⟨path, true⟩ =>
    match d.createDirectory (Path.parent path) with
    | (d, none) => (.error (failure path "there is no directory for it"), s, d)
    | (d, some _) =>
      match d.write? path (toJson s.values).pretty.toUTF8 with
      | some d => (.ok (), { s with file := some { path } }, d)
      | none => (.error (failure path "cannot be written"), s, d)
  | _ => (.ok (), s, d)

end SaveStore

end ActorScript
