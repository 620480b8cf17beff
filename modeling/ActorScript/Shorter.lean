/-
  What is left of a list after taking from its front.

  A parser gives back the rest of its input together with a bound on its length: it is shorter
  than the input (`Shorter`), or at least not longer (`NoLonger`).  Rests of rests are rests
  (`trans`, `upTo`), so the bound of a parser that is made of others comes with its result, and
  parsers that call each other terminate by it (`Shorter.lex_left`).
-/

namespace ActorScript

variable {α : Type}

/-- What is left after at least one item was taken. -/
abbrev Shorter (xs : List α) : Type := { rest : List α // rest.length < xs.length }

/-- What is left after any number of items was taken. -/
abbrev NoLonger (xs : List α) : Type := { rest : List α // rest.length ≤ xs.length }

namespace Shorter

variable {xs : List α}

/-- The items behind the first. -/
def tail (x : α) (rest : List α) : Shorter (x :: rest) := ⟨rest, Nat.lt_succ_self _⟩

/-- What is left after more was taken. -/
def trans (r : Shorter xs) (r' : Shorter r.1) : Shorter xs := ⟨r'.1, Nat.lt_trans r'.2 r.2⟩

/-- What is left after more may have been taken. -/
def upTo (r : Shorter xs) (r' : NoLonger r.1) : Shorter xs :=
  ⟨r'.1, Nat.lt_of_le_of_lt r'.2 r.2⟩

/-- What is left after at least one item was taken, as what is left after any number was. -/
def noLonger (r : Shorter xs) : NoLonger xs := ⟨r.1, Nat.le_of_lt r.2⟩

theorem length_lt (r : Shorter xs) : r.1.length < xs.length := r.2

theorem lex_left (r : Shorter xs) (m n : Nat) :
    Prod.Lex (· < ·) (· < ·) (r.1.length, m) (xs.length, n) := .left _ _ r.2

end Shorter

namespace NoLonger

variable {xs : List α}

/-- What is left if nothing is taken. -/
def all (xs : List α) : NoLonger xs := ⟨xs, Nat.le_refl _⟩

/-- What is left after at least one more item was taken. -/
def trans (r : NoLonger xs) (r' : Shorter r.1) : Shorter xs := ⟨r'.1, Nat.lt_of_lt_of_le r'.2 r.2⟩

/-- What is left after more may have been taken. -/
def upTo (r : NoLonger xs) (r' : NoLonger r.1) : NoLonger xs := ⟨r'.1, Nat.le_trans r'.2 r.2⟩

end NoLonger

end ActorScript
