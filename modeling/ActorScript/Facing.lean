/-
  Which way to look at a tile.

  The plane around a tile is cut along its diagonals into four sectors, one for each orientation;
  a diagonal itself belongs to the sector that comes next clockwise.  So every other tile lies in
  exactly one sector (`existsUnique_inSector`).  On the map, where `y` grows downwards, clockwise
  is from right to down.

  Distances and directions have limited precision.  An offset is rounded before it is looked at,
  and a diagonal has some breadth: directions that cannot be told from it count as on it.
-/
import ActorScript.Orientation
import ActorScript.Rounding

namespace ActorScript

namespace Orientation

/-- The orientation after a quarter turn clockwise. -/
def clockwise : Orientation → Orientation
  | up => right
  | right => down
  | down => left
  | left => up

/-- The orientation after a quarter turn counterclockwise. -/
def counterclockwise : Orientation → Orientation
  | up => left
  | right => up
  | down => right
  | left => down

/-- How far an offset goes in a direction. -/
def along (o : Orientation) (dx dy : Int) : Int := o.delta.1 * dx + o.delta.2 * dy

/-- How sharp the diagonal is at the clockwise end of a sector: a direction inside the sector that
    misses it by at most one part in this number has the same angle in limited precision.  Angles
    are counted from `right` both ways, and a wider angle is less precise. -/
def sharpness : Orientation → Int
  | up => 40168738825485388
  | right => 11628756134384996
  | down => 3187342388545926
  | left => 7690950207925599

/-- Whether an offset has come as far clockwise as the diagonal at the end of a sector. -/
def Reached (o : Orientation) (dx dy : Int) : Prop :=
  o.sharpness * (o.along dx dy - o.clockwise.along dx dy) ≤
    o.along dx dy + o.clockwise.along dx dy

instance (o : Orientation) (dx dy : Int) : Decidable (o.Reached dx dy) :=
  inferInstanceAs (Decidable (_ ≤ _))

/-- Whether an offset lies in the sector of an orientation: it has reached the diagonal where the
    sector begins, but not the one where it ends. -/
def InSector (o : Orientation) (dx dy : Int) : Prop :=
  o.counterclockwise.Reached dx dy ∧ ¬ o.Reached dx dy

instance (o : Orientation) (dx dy : Int) : Decidable (o.InSector dx dy) :=
  inferInstanceAs (Decidable (_ ∧ _))

/-- Every offset but the empty one lies in exactly one sector. -/
theorem existsUnique_inSector {dx dy : Int} (h : dx ≠ 0 ∨ dy ≠ 0) :
    ∃ o : Orientation, o.InSector dx dy ∧ ∀ o' : Orientation, o'.InSector dx dy → o' = o := by
  have only (o : Orientation) (ho : o.InSector dx dy) :
      ∀ o' : Orientation, o'.InSector dx dy → o' = o := by
    intro o' ho'
    cases o <;> cases o' <;>
      simp only [InSector, Reached, sharpness, along, clockwise, counterclockwise, delta]
        at ho ho' ⊢ <;> omega
  have cases : up.InSector dx dy ∨ right.InSector dx dy ∨ down.InSector dx dy ∨
      left.InSector dx dy := by
    simp only [InSector, Reached, sharpness, along, clockwise, counterclockwise, delta]; omega
  rcases cases with h | h | h | h <;> exact ⟨_, h, only _ h⟩

end Orientation

/-- The orientation that points from one tile towards another; `right` if they are the same. -/
def Tile.facing (t target : Tile) : Orientation :=
  let dx := Rounding.nearestInt (wrap (target.x - t.x))
  let dy := Rounding.nearestInt (wrap (target.y - t.y))
  (Orientation.all.find? fun o => o.InSector dx dy).getD .right

example : (Orientation.all.map fun o => Tile.facing ⟨0, 0⟩ ⟨o.delta.1, o.delta.2⟩) =
    Orientation.all := by decide

example : Tile.facing ⟨0, 0⟩ ⟨1, 1⟩ = .down ∧ Tile.facing ⟨0, 0⟩ ⟨-1, 1⟩ = .left ∧
    Tile.facing ⟨0, 0⟩ ⟨-1, -1⟩ = .up ∧ Tile.facing ⟨0, 0⟩ ⟨1, -1⟩ = .right := by decide

end ActorScript
