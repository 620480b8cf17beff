/-
  The values that script expressions compute with.

  Integers are 64-bit words, so their range is part of the type.  `absent` is what a read of a
  register or name that holds nothing gives; it is a value like the others and may be stored.
-/
import ActorScript.Orientation

namespace ActorScript

/-- A value of a script. -/
inductive Value
  | int (n : Int64)
  | bool (b : Bool)
  | string (s : String)
  | orientation (o : Orientation)
  | absent
deriving DecidableEq, Repr

namespace Value

instance : Inhabited Value := ⟨absent⟩

/-- The number of integers that are not negative; there are as many negative ones. -/
def intBound : Nat := 9223372036854775808

/-- Whether a number is a possible value of type int. -/
def InRange (n : Int) : Prop := -intBound ≤ n ∧ n < intBound

instance (n : Int) : Decidable (InRange n) := inferInstanceAs (Decidable (_ ∧ _))

/-- Whether a condition with this value holds: `0`, `false`, the empty string and `absent` do
    not, every other value does. -/
def truthy : Value → Bool
  | int n => n != 0
  | bool b => b
  | string s => !s.isEmpty
  | orientation _ => true
  | absent => false

/-- The name of a value's type in messages. -/
def typeName : Value → String
  | int _ => "int"
  | bool _ => "boolean"
  | string _ => "string"
  | orientation _ => "orientation"
  | absent => "absent"

/-- The text a value contributes to a printed or joined string; `absent` contributes none. -/
def text : Value → String
  | int n => toString n.toInt
  | bool b => if b then "true" else "false"
  | string s => s
  | orientation o => o.name
  | absent => ""

/-- The number, if the value is an integer. -/
def int? : Value → Option Int64
  | int n => some n
  | _ => none

/-- The characters, if the value is a string. -/
def string? : Value → Option String
  | string s => some s
  | _ => none

/-- The direction, if the value is an orientation. -/
def orientation? : Value → Option Orientation
  | orientation o => some o
  | _ => none

/-- Whether this is the value of a read that found nothing. -/
def isAbsent : Value → Bool
  | absent => true
  | _ => false

/-- Whether the value is a string; a sum with a string joins texts. -/
def isString : Value → Bool
  | string _ => true
  | _ => false

theorem isAbsent_iff {v : Value} : v.isAbsent = true ↔ v = absent := by
  cases v <;> simp [isAbsent]

end Value

end ActorScript
