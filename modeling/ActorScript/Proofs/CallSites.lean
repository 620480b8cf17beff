/-
  The places of a script where a function is called.

  A place in an expression is a path: a list of numbers, each of which says which operand or
  argument to go down to.  A `CallSite` is such a path in the condition of a state, or in a
  statement of a block; the path without numbers is the statement itself.  `Script.called?` looks
  at one place and knows nothing of the lists of calls.

  `Lists` is the relation between the two: a list has exactly the things that are found at the
  places of some kind, one for each place.  It is closed under what trees and lists are made of
  (`append`, `family`, `along`), so that `Script.calledFunctions` is followed through its definition
  (`lists_calledFunctions`).
-/
import Mathlib.Data.List.Nodup
import Mathlib.Data.Prod.Basic
import ActorScript.Proofs.Asked

namespace ActorScript

variable {ι κ α β : Type}

/-! ## Lists of what is found at some places -/

/-- The list has what is found at all places, in some order: one entry for each place where
    anything is found. -/
def Lists (found? : ι → Option α) (l : List α) : Prop :=
  ∃ places : List ι, places.Nodup ∧ (∀ p, p ∈ places ↔ (found? p).isSome) ∧
    places.map found? = l.map some

namespace Lists

variable {found? : ι → Option α} {l l' : List α}

theorem nil (h : ∀ p, found? p = none) : Lists found? [] :=
  ⟨[], .nil, fun p => by simp [h p], rfl⟩

theorem congr {found'? : ι → Option α} (h : Lists found? l) (heq : ∀ p, found'? p = found? p) :
    Lists found'? l := by
  rwa [funext heq]

/-- Something is found at one place only, or nowhere. -/
theorem one [DecidableEq ι] (p : ι) (x? : Option α) :
    Lists (fun q => if q = p then x? else none) x?.toList := by
  cases x? with
  | none => exact nil fun q => ite_self none
  | some x => exact ⟨[p], List.nodup_singleton p, fun q => by simp, by simp⟩

/-- Two lists one behind the other, for things that are never found at the same place. -/
theorem append {found'? : ι → Option α} (h : Lists found? l) (h' : Lists found'? l')
    (hapart : ∀ p, found? p = none ∨ found'? p = none) :
    Lists (fun p => (found? p).or (found'? p)) (l ++ l') := by
  obtain ⟨places, hnodup, hmem, hmap⟩ := h
  obtain ⟨places', hnodup', hmem', hmap'⟩ := h'
  refine ⟨places ++ places', ?_, fun p => ?_, ?_⟩
  · refine List.nodup_append.mpr ⟨hnodup, hnodup', fun p hp q hq hpq => ?_⟩
    subst hpq
    have hsome := (hmem p).mp hp
    have hsome' := (hmem' p).mp hq
    rcases hapart p with hnone | hnone
    · simp [hnone] at hsome
    · simp [hnone] at hsome'
  · rw [List.mem_append, hmem, hmem', Option.isSome_or, Bool.or_eq_true]
  · rw [List.map_append, List.map_append, ← hmap, ← hmap']
    congr 1
    · refine List.map_congr_left fun p hp => ?_
      obtain ⟨x, hx⟩ := Option.isSome_iff_exists.mp ((hmem p).mp hp)
      rw [hx, Option.some_or]
    · refine List.map_congr_left fun p hp => ?_
      obtain ⟨x, hx⟩ := Option.isSome_iff_exists.mp ((hmem' p).mp hp)
      have hnone : found? p = none := (hapart p).resolve_right (by simp [hx])
      rw [hnone, Option.none_or]

/-- Places may be called differently, if each keeps a name of its own and there are no others. -/
theorem along {found'? : κ → Option α} (h : Lists found? l) {f : ι → κ} (hf : f.Injective)
    (hfound : ∀ p, found'? (f p) = found? p)
    (hall : ∀ q, (found'? q).isSome → ∃ p, f p = q) : Lists found'? l := by
  obtain ⟨places, hnodup, hmem, hmap⟩ := h
  refine ⟨places.map f, hnodup.map hf, fun q => ?_, ?_⟩
  · rw [List.mem_map]
    constructor
    · rintro ⟨p, hp, rfl⟩
      rw [hfound]
      exact (hmem p).mp hp
    · intro hq
      obtain ⟨p, rfl⟩ := hall q hq
      rw [hfound] at hq
      exact ⟨p, (hmem p).mpr hq, rfl⟩
  · rw [List.map_map, ← hmap]
    exact List.map_congr_left fun p _ => hfound p

/-- What is found may be read in another way. -/
theorem map (h : Lists found? l) (f : α → β) : Lists (fun p => (found? p).map f) (l.map f) := by
  obtain ⟨places, hnodup, hmem, hmap⟩ := h
  refine ⟨places, hnodup, fun p => ?_, ?_⟩
  · rw [hmem, Option.isSome_map]
  · calc places.map (fun p => (found? p).map f)
        = (places.map found?).map (Option.map f) := by rw [List.map_map]; rfl
      _ = (l.map some).map (Option.map f) := by rw [hmap]
      _ = (l.map f).map some := by simp only [List.map_map, Function.comp_def, Option.map_some]

/-- The places in the items of a list: the number of an item and a place in it. -/
theorem family {xs : List β} {found? : β → ι → Option α} {l : β → List α}
    (h : ∀ x ∈ xs, Lists (found? x) (l x)) :
    Lists (fun p : Nat × ι => xs[p.1]?.bind (found? · p.2)) (xs.flatMap l) := by
  induction xs with
  | nil => exact nil fun p => rfl
  | cons x xs ih =>
    -- item 0 has the places of `x`; the items behind it have those of `xs`, one number further
    have hfirst : Lists (fun p : Nat × ι => if p.1 = 0 then found? x p.2 else none) (l x) := by
      refine (h x List.mem_cons_self).along (Prod.mk_right_injective 0) (fun q => rfl) ?_
      rintro ⟨_ | i, q⟩ hq
      · exact ⟨q, rfl⟩
      · cases hq
    have hrest : Lists
        (fun p : Nat × ι => if p.1 = 0 then none else xs[p.1 - 1]?.bind (found? · p.2))
        (xs.flatMap l) := by
      refine (ih fun y hy => h y (List.mem_cons_of_mem x hy)).along (f := fun p => (p.1 + 1, p.2))
        ?_ (fun p => rfl) ?_
      · rintro ⟨i, q⟩ ⟨j, r⟩ heq
        simpa using heq
      · rintro ⟨_ | i, q⟩ hq
        · cases hq
        · exact ⟨(i, q), rfl⟩
    rw [List.flatMap_cons]
    refine (hfirst.append hrest ?_).congr ?_
    · rintro ⟨i, q⟩
      by_cases hi : i = 0
      · exact .inr (if_pos hi)
      · exact .inl (if_neg hi)
    · rintro ⟨_ | i, q⟩
      · simp
      · simp

/-- **The places in a tree**: the root, where `x?` is found, and a number and a path for each
    place below it. -/
theorem node (x? : Option α) {xs : List β} {found? : β → List Nat → Option α} {l : β → List α}
    (h : ∀ x ∈ xs, Lists (found? x) (l x)) {found'? : List Nat → Option α}
    (hroot : found'? [] = x?)
    (hbelow : ∀ i path, found'? (i :: path) = xs[i]?.bind (found? · path)) :
    Lists found'? (x?.toList ++ xs.flatMap l) := by
  have hchildren : Lists (fun path => if path = [] then none else found'? path)
      (xs.flatMap l) := by
    refine (family h).along (f := fun p => p.1 :: p.2) ?_ (fun p => hbelow p.1 p.2) ?_
    · rintro ⟨i, q⟩ ⟨j, r⟩ heq
      simpa using heq
    · rintro (_ | ⟨i, path⟩) hq
      · cases hq
      · exact ⟨(i, path), rfl⟩
  refine ((one [] x?).append hchildren fun path => ?_).congr fun path => ?_
  · by_cases hpath : path = []
    · exact .inr (if_pos hpath)
    · exact .inl (if_neg hpath)
  · cases path with
    | nil => simp [hroot]
    | cons i path => simp

end Lists

/-! ## Calls in expressions and statements -/

namespace Expr

/-- The function that an expression calls, if it is a call. -/
def function? : Expr → Option String
  | .call f _ => some f
  | _ => none

/-- The arguments, operands or parts of an expression. -/
def children : Expr → List Expr
  | .literal _ | .symbol _ | .register _ => []
  | .call _ args => args
  | .unary _ e => [e]
  | .binary _ l r => [l, r]
  | .ternary c t e => [c, t, e]

/-- The function that is called at the end of a path into an expression. -/
def called? (path : List Nat) (e : Expr) : Option String :=
  match path with
  | [] => e.function?
  | i :: path => e.children[i]?.bind (called? path)

theorem callsList_eq (es : List Expr) : callsList es = es.flatMap calls := by
  induction es with
  | nil => rfl
  | cons e es ih => rw [callsList, ih, List.flatMap_cons]

theorem calls_eq (e : Expr) : e.calls = e.function?.toList ++ e.children.flatMap calls := by
  cases e with
  | call f args =>
    rw [calls, callsList_eq]
    rfl
  | _ => simp [calls, function?, children]

/-- **The calls of an expression** are listed once for each place. -/
theorem lists_calls (e : Expr) : Lists (called? · e) e.calls := by
  have step : ∀ e : Expr, (∀ x ∈ e.children, Lists (called? · x) x.calls) →
      Lists (called? · e) e.calls := by
    intro e h
    rw [calls_eq]
    exact .node e.function? h rfl fun i path => rfl
  induction e using Expr.induct with
  | literal v => exact step _ nofun
  | symbol n => exact step _ nofun
  | register r => exact step _ nofun
  | call f args ih => exact step _ ih
  | unary op e ih => exact step _ (by simpa [children] using ih)
  | binary op l r ihl ihr => exact step _ (by simp [children, ihl, ihr])
  | ternary c t e ihc iht ihe => exact step _ (by simp [children, ihc, iht, ihe])

end Expr

namespace Statement

/-- The expressions of a statement. -/
def operands : Statement → List Expr
  | call _ args _ => args
  | assign _ value _ => [value]
  | ifElse condition _ _ _ => [condition]

/-- The function that is called at the end of a path into a statement. -/
def called? : List Nat → Statement → Option String
  | [], st => st.function?
  | i :: path, st => st.operands[i]?.bind (Expr.called? path)

theorem lists_calls (st : Statement) : Lists (called? · st) st.calls := by
  have hvalues : st.valueCalls = st.operands.flatMap Expr.calls := by
    cases st with
    | call f args l => exact Expr.callsList_eq args
    | assign target value l => exact (List.flatMap_singleton ..).symm
    | ifElse c t e l => exact (List.flatMap_singleton ..).symm
  rw [Statement.calls_eq, hvalues]
  exact .node st.function? (fun e _ => e.lists_calls) rfl fun i path => rfl

end Statement

/-! ## Calls in scripts -/

/-- A place of a script where a function may be called. -/
inductive CallSite
  /-- In the condition of the state with a number. -/
  | condition (state : Nat) (path : List Nat)
  /-- At or in the statement with a number in the block with a number. -/
  | statement (block index : Nat) (path : List Nat)
deriving DecidableEq, Repr

namespace Script

/-- **The function that is called at a place** of the script, and the location of the state or
    statement that the place is in. -/
def called? (s : Script) : CallSite → Option (String × Location)
  | .condition i path =>
    s.states[i]?.bind fun st => (st.condition.called? path).map (·, st.location)
  | .statement b i path =>
    s.blocks[b]?.bind fun block =>
      block[i]?.bind fun st => (st.called? path).map (·, st.location)

/-- **All calls of a script** are listed, each once and with its location. -/
theorem lists_calledFunctions (s : Script) : Lists s.called? s.calledFunctions := by
  -- conditions and statements are listed one behind the other, and no place is in both
  have hconditions : Lists
      (fun site : CallSite => match site with
        | .condition i path => s.called? (.condition i path)
        | .statement .. => none)
      (s.states.flatMap fun st => st.condition.calls.map (·, st.location)) := by
    refine (Lists.family fun st _ => st.condition.lists_calls.map (·, st.location)).along
      (f := fun p => .condition p.1 p.2) ?_ (fun p => rfl) ?_
    · rintro ⟨i, path⟩ ⟨j, path'⟩ heq
      simpa using heq
    · rintro (⟨i, path⟩ | ⟨b, i, path⟩) hsome
      · exact ⟨(i, path), rfl⟩
      · cases hsome
  have hstatements : Lists
      (fun site : CallSite => match site with
        | .condition .. => none
        | .statement b i path => s.called? (.statement b i path))
      (s.blocks.flatMap fun block => block.flatMap fun st => st.calls.map (·, st.location)) := by
    refine (Lists.family fun block _ =>
      Lists.family fun st _ => st.lists_calls.map (·, st.location)).along
      (f := fun p => .statement p.1 p.2.1 p.2.2) ?_ (fun p => rfl) ?_
    · rintro ⟨b, i, path⟩ ⟨c, j, path'⟩ heq
      simpa using heq
    · rintro (⟨i, path⟩ | ⟨b, i, path⟩) hsome
      · cases hsome
      · exact ⟨(b, i, path), rfl⟩
  rw [calledFunctions, List.flatten_eq_flatMap, List.flatMap_assoc]
  refine (hconditions.append hstatements fun site => ?_).congr fun site => ?_
  · cases site with
    | condition i path => exact .inr rfl
    | statement b i path => exact .inl rfl
  · cases site with
    | condition i path => exact Option.or_none.symm
    | statement b i path => rfl

end Script

end ActorScript
