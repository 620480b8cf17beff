/-
  JSON documents as trees.

  Numbers are integers where they are written as such; of any other number it is only known that
  it is one (`real`), because nothing here is made of fractions.  `unreadable` is a value that
  keeps to the grammar but cannot be represented: a number too large even for a floating-point
  number, or a text with half of a surrogate pair.  The members of an object keep their order, and
  a name may occur more than once; what a repeated name means is for the reader to say.
-/

namespace ActorScript

/-- A JSON document. -/
inductive Json
  | null
  | bool (b : Bool)
  | int (n : Int)
  | real
  | string (s : String)
  | array (items : List Json)
  | object (members : List (String × Json))
  | unreadable
deriving Repr, Inhabited

namespace Json

/-- The truth value, if the document is one. -/
def bool? : Json → Option Bool
  | bool b => some b
  | _ => none

/-- The number, if the document is an integer. -/
def int? : Json → Option Int
  | int n => some n
  | _ => none

/-- The number, if the document is an integer that is not negative. -/
def nat? : Json → Option Nat
  | int (.ofNat n) => some n
  | _ => none

/-- The text, if the document is one. -/
def string? : Json → Option String
  | string s => some s
  | _ => none

/-- The items, if the document is an array. -/
def items? : Json → Option (List Json)
  | array items => some items
  | _ => none

/-- The members, if the document is an object. -/
def members? : Json → Option (List (String × Json))
  | object members => some members
  | _ => none

/-- The values of all members with a name, in order. -/
def valuesOf (name : String) (members : List (String × Json)) : List Json :=
  (members.filter (·.1 == name)).map (·.2)

/-- The value of the member with a name: nothing if there are several, and no value if there is
    none. -/
def single? (name : String) (members : List (String × Json)) : Option (Option Json) :=
  match valuesOf name members with
  | [] => some none
  | [v] => some (some v)
  | _ => none

/-- The members of a record with the given field names.  An object may hold them in any order,
    together with others that do not matter, but none twice; an array holds all of them in the
    order of `names`.  A field that is not there has no value. -/
def fields? (names : List String) : Json → Option (List (Option Json))
  | object members => names.mapM fun name => single? name members
  | array items => if items.length = names.length then some (items.map some) else none
  | _ => none

/-- The word that names a kind: a text or, in a `nested` document, the number of a word in
    `kinds`. -/
def kindName? (nested : Bool) (kinds : List String) : Json → Option String
  | string s => some s
  | int (.ofNat n) => if nested then kinds[n]? else none
  | _ => none

mutual

/-- How deep arrays and objects are nested in each other. -/
def height : Json → Nat
  | array items => heightItems items + 1
  | object members => heightMembers members + 1
  | _ => 0

/-- The greatest height of some documents. -/
def heightItems : List Json → Nat
  | [] => 0
  | j :: js => max j.height (heightItems js)

/-- The greatest height of the values of some members. -/
def heightMembers : List (String × Json) → Nat
  | [] => 0
  | (_, j) :: ms => max j.height (heightMembers ms)

end

mutual

/-- Whether every part of the document can be represented. -/
def readable : Json → Bool
  | array items => readableItems items
  | object members => readableMembers members
  | unreadable => false
  | _ => true

/-- Whether every part of some documents can be represented. -/
def readableItems : List Json → Bool
  | [] => true
  | j :: js => j.readable && readableItems js

/-- Whether every part of the values of some members can be represented. -/
def readableMembers : List (String × Json) → Bool
  | [] => true
  | (_, j) :: ms => j.readable && readableMembers ms

end

end Json

end ActorScript
