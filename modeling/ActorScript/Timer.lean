/-
  Countdowns that end a wait.

  A timer counts milliseconds up to its duration.  The count stays within 64 bits: it stops at
  the largest number instead of starting again from zero (`addCapped`), which no comparison with
  a duration can notice.
-/
import ActorScript.Event

namespace ActorScript

/-- The sum of two 64-bit numbers, or the largest such number if the sum is beyond it. -/
def addCapped (a b : UInt64) : UInt64 := UInt64.ofNat (min (a.toNat + b.toNat) (UInt64.size - 1))

theorem toNat_addCapped (a b : UInt64) :
    (addCapped a b).toNat = min (a.toNat + b.toNat) (UInt64.size - 1) := by
  simp only [addCapped, UInt64.toNat_ofNat', UInt64.size]
  omega

/-- A countdown for the handler of an event. -/
structure Timer where
  event : Event
  duration : UInt64
  elapsed : UInt64 := 0
deriving DecidableEq, Repr, Inhabited

namespace Timer

/-- The timer after another `dt` milliseconds. -/
def advance (t : Timer) (dt : UInt64) : Timer := { t with elapsed := addCapped t.elapsed dt }

/-- Whether the duration has passed. -/
def hasFired (t : Timer) : Bool := t.duration ≤ t.elapsed

/-- The milliseconds left. -/
def remaining (t : Timer) : UInt64 :=
  if t.duration ≤ t.elapsed then 0 else t.duration - t.elapsed

end Timer

end ActorScript
