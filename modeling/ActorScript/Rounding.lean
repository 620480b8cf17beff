/-
  Numbers of limited precision.

  A number of limited precision has at most 53 significant binary digits.  `nearest` rounds to
  one of them: small numbers stay as they are (`nearest_eq_self`), and no other multiple of the
  step between neighbours is nearer (`two_mul_nearest_sub_le`, `two_mul_sub_nearest_le`).
-/

namespace ActorScript.Rounding

/-- The nearest multiple of `u`; of two that are equally near, the even multiple. -/
def toMultiple (u n : Nat) : Nat :=
  let below := n / u
  let rest := n % u
  if 2 * rest < u ∨ 2 * rest = u ∧ below % 2 = 0 then below * u else (below + 1) * u

/-- The distance of neighbours of limited precision around a number. -/
def step (n : Nat) : Nat := Nat.pow 2 (n.log2 - 52)

/-- The nearest number of limited precision; of two that are equally near, the one whose last
    significant digit is zero. -/
def nearest (n : Nat) : Nat := toMultiple (step n) n

/-- The nearest number of limited precision, on either side of zero. -/
def nearestInt (n : Int) : Int := n.sign * nearest n.natAbs

/-! ## How near it is -/

theorem step_pos (n : Nat) : 0 < step n := Nat.pow_pos (by decide)

/-- The nearest multiple is too large by half a step at most. -/
theorem two_mul_toMultiple_sub_le (u n : Nat) : 2 * (toMultiple u n - n) ≤ u := by
  have h := Nat.div_add_mod' n u
  simp only [toMultiple, Nat.add_mul]
  split <;> omega

/-- The nearest multiple is too small by half a step at most. -/
theorem two_mul_sub_toMultiple_le {u : Nat} (hu : 0 < u) (n : Nat) :
    2 * (n - toMultiple u n) ≤ u := by
  have h := Nat.div_add_mod' n u
  have := Nat.mod_lt n hu
  simp only [toMultiple, Nat.add_mul]
  split <;> omega

/-- Every number is a multiple of one. -/
theorem toMultiple_one (n : Nat) : toMultiple 1 n = n := by
  simp [toMultiple, Nat.mod_one]

/-- **A number that is rounded up** has grown by half a step at most. -/
theorem two_mul_nearest_sub_le (n : Nat) : 2 * (nearest n - n) ≤ step n :=
  two_mul_toMultiple_sub_le _ n

/-- **A number that is rounded down** has shrunk by half a step at most. -/
theorem two_mul_sub_nearest_le (n : Nat) : 2 * (n - nearest n) ≤ step n :=
  two_mul_sub_toMultiple_le (step_pos n) n

/-- Numbers of 53 bits have a step of one, so they are exact. -/
theorem nearest_eq_self {n : Nat} (h : n < 9007199254740992) : nearest n = n := by
  have : n.log2 - 52 = 0 := by
    by_cases hn : n = 0
    · subst hn; decide
    · have := (Nat.log2_lt hn (k := 53)).2 h
      omega
  rw [nearest, step, this]
  exact toMultiple_one n

example : nearest 9007199254740993 = 9007199254740992 ∧
    nearest 9007199254740995 = 9007199254740996 := by decide

end ActorScript.Rounding
