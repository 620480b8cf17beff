/-
  Places in the text of a script.

  Lines and columns are counted from one, columns in characters.  Every token, declaration and
  statement keeps the location of its first character, and every syntax error names one.
-/

namespace ActorScript

/-- A line and a column of a script, both counted from one. -/
structure Location where
  line : Nat
  column : Nat
deriving DecidableEq, Repr, Inhabited

namespace Location

/-- The first character of a text. -/
def start : Location := ⟨1, 1⟩

/-- The location after the character `c`: a newline opens the next line, any other character
    takes one column. -/
def next (l : Location) (c : Char) : Location :=
  if c = '\n' then ⟨l.line + 1, 1⟩ else ⟨l.line, l.column + 1⟩

/-- The location after a run of characters. -/
def advance (l : Location) (cs : List Char) : Location := cs.foldl next l

/-- The written form `line:column`. -/
def text (l : Location) : String := toString l.line ++ ":" ++ toString l.column

@[simp] theorem advance_nil (l : Location) : l.advance [] = l := rfl

@[simp] theorem advance_cons (l : Location) (c : Char) (cs : List Char) :
    l.advance (c :: cs) = (l.next c).advance cs := rfl

theorem advance_append (l : Location) (xs ys : List Char) :
    l.advance (xs ++ ys) = (l.advance xs).advance ys := List.foldl_append ..

end Location

end ActorScript
