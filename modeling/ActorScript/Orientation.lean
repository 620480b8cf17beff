/-
  The four directions an actor can look or walk in, and the tiles of a map.

  The vertical axis grows downwards, so a step up lowers `y`.  Coordinates are kept in 64 bits:
  behind the last one comes the first.
-/

namespace ActorScript

/-- A direction on the map. -/
inductive Orientation
  | up
  | right
  | down
  | left
deriving DecidableEq, Repr, Inhabited

/-- A tile of the map; `x` grows to the right and `y` downwards. -/
structure Tile where
  x : Int
  y : Int
deriving DecidableEq, Repr, Inhabited

namespace Orientation

/-- All orientations, clockwise from `up`. -/
def all : List Orientation := [up, right, down, left]

/-- The upper-case word that scripts use for an orientation. -/
def name : Orientation → String
  | up => "UP"
  | right => "RIGHT"
  | down => "DOWN"
  | left => "LEFT"

/-- The orientation with this name, if there is one; lower case is not accepted. -/
def ofName? (name : String) : Option Orientation := all.find? (·.name == name)

/-- One step in this direction, as a difference of coordinates. -/
def delta : Orientation → Int × Int
  | up => (0, -1)
  | right => (1, 0)
  | down => (0, 1)
  | left => (-1, 0)

@[simp] theorem ofName?_name (o : Orientation) : ofName? o.name = some o := by
  cases o <;> decide

theorem name_of_ofName? {s : String} {o : Orientation} (h : ofName? s = some o) : o.name = s := by
  simpa using List.find?_some h

end Orientation

namespace Tile

/-- What is kept of a coordinate in 64 bits. -/
def wrap (n : Int) : Int := (Int64.ofInt n).toInt

/-- The neighbouring tile in direction `o`. -/
def step (t : Tile) (o : Orientation) : Tile :=
  ⟨wrap (t.x + o.delta.1), wrap (t.y + o.delta.2)⟩

theorem wrap_eq_self {n : Int} (h : -9223372036854775808 ≤ n) (h' : n < 9223372036854775808) :
    wrap n = n :=
  Int64.toInt_ofInt_of_le h h'

/-- **Away from the edges** of the map, a step changes one coordinate by one. -/
theorem step_eq {t : Tile} (o : Orientation)
    (hx : -9223372036854775808 < t.x ∧ t.x < 9223372036854775807)
    (hy : -9223372036854775808 < t.y ∧ t.y < 9223372036854775807) :
    t.step o = ⟨t.x + o.delta.1, t.y + o.delta.2⟩ := by
  have hwrap : ∀ {a d : Int}, -9223372036854775808 < a ∧ a < 9223372036854775807 →
      -1 ≤ d ∧ d ≤ 1 → wrap (a + d) = a + d :=
    fun ha hd => wrap_eq_self (by omega) (by omega)
  rw [step, hwrap hx (by cases o <;> decide), hwrap hy (by cases o <;> decide)]

end Tile

end ActorScript
