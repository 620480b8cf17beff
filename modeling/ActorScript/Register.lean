/-
  Registers: storage that scripts address by a space and a key, as in `parameters["mood"]`.

  A `Reference` is anything an expression can read or a statement can assign: a register, or a
  bare name (constants, declared variables).
-/

namespace ActorScript

/-- The four register spaces. -/
inductive RegisterSpace
  | parameters
  | vars
  | savedVariables
  | messageParameters
deriving DecidableEq, Repr, Inhabited

namespace RegisterSpace

/-- All register spaces, in order of declaration. -/
def all : List RegisterSpace := [parameters, vars, savedVariables, messageParameters]

/-- The word in front of the bracket. -/
def keyword : RegisterSpace → String
  | parameters => "parameters"
  | vars => "variables"
  | savedVariables => "savedVariables"
  | messageParameters => "messageParameters"

/-- The space with this keyword, if there is one. -/
def ofKeyword? (word : String) : Option RegisterSpace := all.find? (·.keyword == word)

@[simp] theorem ofKeyword?_keyword (s : RegisterSpace) : ofKeyword? s.keyword = some s := by
  cases s <;> decide

theorem keyword_of_ofKeyword? {w : String} {s : RegisterSpace} (h : ofKeyword? w = some s) :
    s.keyword = w := by
  simpa using List.find?_some h

end RegisterSpace

/-- One entry of a register space. -/
structure Register where
  space : RegisterSpace
  key : String
deriving DecidableEq, Repr, Inhabited

/-- The form `space[key]`, without quotes around the key. -/
def Register.text (r : Register) : String := r.space.keyword ++ "[" ++ r.key ++ "]"

/-- What an expression reads or an assignment writes. -/
inductive Reference
  | symbol (name : String)
  | register (r : Register)
deriving DecidableEq, Repr, Inhabited

/-- The spelling of a reference: a name as it is, a register as `space[key]`. -/
def Reference.text : Reference → String
  | .symbol name => name
  | .register r => r.text

end ActorScript
