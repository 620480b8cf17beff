/-
  Blank characters: those with the Unicode property White_Space.

  There are twenty-five of them.  The class is wider than the four blanks that `Char.isWhitespace`
  knows (`isBlank_of_isWhitespace`).
-/

namespace ActorScript.Text

/-- Whether a character separates tokens without being part of one. -/
def isBlank (c : Char) : Bool :=
  let n := c.toNat
  (0x9 ≤ n && n ≤ 0xD) || n == 0x20 || n == 0x85 || n == 0xA0 || n == 0x1680 ||
    (0x2000 ≤ n && n ≤ 0x200A) || n == 0x2028 || n == 0x2029 || n == 0x202F || n == 0x205F ||
    n == 0x3000

theorem isBlank_of_isWhitespace {c : Char} (h : c.isWhitespace = true) : isBlank c = true := by
  simp only [Char.isWhitespace, Bool.or_eq_true, decide_eq_true_eq] at h
  rcases h with ((rfl | rfl) | rfl) | rfl <;> decide

example : isBlank '\n' ∧ isBlank '\u3000' ∧ !isBlank '\u200b' ∧ !isBlank '/' := by decide

end ActorScript.Text
