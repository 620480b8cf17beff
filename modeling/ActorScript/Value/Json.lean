/-
  Values as JSON.

  A value is written as an object with its kind and, unless it is absent, its content.  When such
  an object is read the two members may stand in either order and other members do not matter;
  instead of an object there may also be an array of kind and content.  A choice from a list of
  words is usually a text; it may also be an object whose only member has the word as its name
  and no content (`choice?`).  The kind in an object is such a choice, the one in an array is not
  (`Json.kindName?`).

  A part of a larger document may have to be read as a whole before it is known what it should
  be.  Such a part is `nested`, and in it an empty object will do where nothing is wanted.  The
  content of a value becomes nested by standing in front of the kind.
-/
import ActorScript.Json
import ActorScript.Value

namespace ActorScript

namespace Json

/-- Whether a document stands for nothing: null does, and in a nested document an empty object. -/
def isNothing (nested : Bool) : Json → Bool
  | null => true
  | object [] => nested
  | _ => false

/-- The word of a choice from a list of words. -/
def choice? (nested : Bool) : Json → Option String
  | string s => some s
  | object [(s, content)] => if content.isNothing nested then some s else none
  | _ => none

end Json

namespace Value

/-- Writes a value. -/
def toJson : Value → Json
  | int n => .object [("kind", .string "int"), ("value", .int n.toInt)]
  | bool b => .object [("kind", .string "bool"), ("value", .bool b)]
  | string s => .object [("kind", .string "string"), ("value", .string s)]
  | orientation o => .object [("kind", .string "orientation"), ("value", .string o.name)]
  | absent => .object [("kind", .string "absent")]

/-- The kinds of values. -/
def kinds : List String := ["int", "bool", "string", "orientation", "absent"]

/-- Reads a 64-bit integer. -/
def int64OfJson? (j : Json) : Option Int64 := do
  let n ← j.int?
  if InRange n then return Int64.ofInt n else none

/-- Reads the content of a value of some kind. -/
def ofContent? (nested : Bool) (kind : String) (content : Option Json) : Option Value :=
  match kind, content with
  | "int", some j => (int64OfJson? j).map .int
  | "bool", some j => j.bool?.map .bool
  | "string", some j => j.string?.map .string
  | "orientation", some j => do
    let name ← j.choice? nested
    return .orientation (← Orientation.ofName? name)
  | "absent", none | "absent", some .null => some .absent
  | _, _ => none

/-- Whether the content of a value stands in front of its kind. -/
def contentFirst (j : Json) : Bool :=
  let found := (j.members?.getD []).find? fun m => m.1 == "kind" || m.1 == "value"
  found.any (·.1 == "value")

/-- Reads a value. -/
def ofJson? (nested : Bool) (j : Json) : Option Value := do
  let [some kind, content] ← j.fields? ["kind", "value"] | none
  let name := if j.items?.isSome then kind.kindName? nested kinds else kind.choice? nested
  ofContent? (nested || contentFirst j) (← name) content

end Value

end ActorScript
