/-
  Parts of a JSON document.

  What is read from a document recursively is read from parts of it, and a part carries the proof
  that it is smaller than the whole.  Parts are reached as items (`items?`), as fields of a record
  (`fieldParts?`) and as fields of a record that names its kind (`taggedParts?`).
-/
import ActorScript.Json

namespace ActorScript.Json

/-- A proper part of a document. -/
abbrev Part (j : Json) : Type := { part : Json // sizeOf part < sizeOf j }

/-- The kind of a document that names its kind, and the document without it.  The kind is the
    first item of an array or the member `kind` of an object, which must be there once. -/
def tagged? (nested : Bool) (kinds : List String) : Json → Option (String × Json)
  | object members => do
    let kind ← single? "kind" members
    return (← (← kind).kindName? nested kinds, .object (members.filter (·.1 != "kind")))
  | array (kind :: rest) => return (← kind.kindName? nested kinds, .array rest)
  | _ => none

/-! ## Sizes -/

theorem sizeOf_filter_le (p : String × Json → Bool) (ms : List (String × Json)) :
    sizeOf (ms.filter p) ≤ sizeOf ms := by
  induction ms with
  | nil => simp
  | cons m ms ih =>
    rw [List.filter_cons]
    split
    · simp only [List.cons.sizeOf_spec]; omega
    · simp only [List.cons.sizeOf_spec]; omega

theorem sizeOf_tagged_le {nested : Bool} {kinds : List String} {j : Json} {t : String × Json}
    (h : j.tagged? nested kinds = some t) : sizeOf t.2 ≤ sizeOf j := by
  unfold tagged? at h
  split at h
  · rename_i ms
    obtain ⟨k, -, h⟩ := Option.bind_eq_some_iff.1 h
    obtain ⟨k', -, h⟩ := Option.bind_eq_some_iff.1 h
    obtain ⟨w, -, h⟩ := Option.bind_eq_some_iff.1 h
    simp only [Option.pure_def, Option.some.injEq] at h
    subst h
    have := sizeOf_filter_le (·.1 != "kind") ms
    simp only [object.sizeOf_spec]
    omega
  · obtain ⟨w, -, h⟩ := Option.bind_eq_some_iff.1 h
    simp only [Option.pure_def, Option.some.injEq] at h
    subst h
    simp
  · simp at h

theorem sizeOf_mem_valuesOf {name : String} {ms : List (String × Json)} {j : Json}
    (h : j ∈ valuesOf name ms) : sizeOf j < sizeOf ms := by
  obtain ⟨m, hm, rfl⟩ := List.mem_map.1 h
  have h₁ := List.sizeOf_lt_of_mem (List.mem_filter.1 hm).1
  have h₂ : sizeOf m.2 < sizeOf m := by
    cases m; simp only [Prod.mk.sizeOf_spec]; omega
  omega

theorem sizeOf_single {name : String} {ms : List (String × Json)} {j : Json}
    (h : single? name ms = some (some j)) : sizeOf j < sizeOf ms := by
  refine sizeOf_mem_valuesOf (show j ∈ valuesOf name ms from ?_)
  unfold single? at h
  split at h <;> simp_all

theorem exists_of_mem_mapM {α β : Type} {f : α → Option β} {xs : List α} {ys : List β}
    (h : xs.mapM f = some ys) {y : β} (hy : y ∈ ys) : ∃ x ∈ xs, f x = some y := by
  induction xs generalizing ys with
  | nil =>
    simp only [List.mapM_nil, Option.pure_def, Option.some.injEq] at h
    subst h
    simp at hy
  | cons x xs ih =>
    simp only [List.mapM_cons, Option.bind_eq_bind, Option.bind_eq_some_iff, Option.pure_def,
      Option.some.injEq] at h
    obtain ⟨y', hx, ys', hxs, rfl⟩ := h
    rcases List.mem_cons.1 hy with rfl | hy
    · exact ⟨x, List.mem_cons_self, hx⟩
    · obtain ⟨x', hx', h⟩ := ih hxs hy
      exact ⟨x', List.mem_cons_of_mem x hx', h⟩

theorem sizeOf_field {names : List String} {j x : Json} {fs : List (Option Json)}
    {f : Option Json} (h : j.fields? names = some fs) (hf : f ∈ fs) (hx : f = some x) :
    sizeOf x < sizeOf j := by
  subst hx
  unfold fields? at h
  split at h
  · rename_i ms
    obtain ⟨name, -, h⟩ := exists_of_mem_mapM h hf
    have := sizeOf_single h
    simp only [object.sizeOf_spec]
    omega
  · split at h
    · simp only [Option.some.injEq] at h
      subst h
      simp only [List.mem_map, Option.some.injEq, exists_eq_right] at hf
      have := List.sizeOf_lt_of_mem hf
      simp only [array.sizeOf_spec]
      omega
    · simp at h
  · simp at h

theorem sizeOf_item {items : List Json} {j : Json} (h : j ∈ items) :
    sizeOf j < sizeOf (array items) := by
  have := List.sizeOf_lt_of_mem h
  simp only [array.sizeOf_spec]
  omega

/-! ## Parts -/

namespace Part

variable {j : Json}

theorem sizeOf_lt (p : Part j) : sizeOf p.1 < sizeOf j := p.2

/-- A part of a part. -/
def trans (p : Part j) (q : Part p.1) : Part j := ⟨q.1, Nat.lt_trans q.2 p.2⟩

/-- An item of an array. -/
def ofItem {items : List Json} (i : { i // i ∈ items }) : Part (array items) :=
  ⟨i.1, sizeOf_item i.2⟩

/-- A field of a record. -/
def ofField {names : List String} (fs : { fs // j.fields? names = some fs })
    (f : { f // f ∈ fs.1 }) (x : { x // f.1 = some x }) : Part j :=
  ⟨x.1, sizeOf_field fs.2 f.2 x.2⟩

/-- A part of what is left of a document without its kind. -/
def ofTagged {nested : Bool} {kinds : List String}
    (t : { t // j.tagged? nested kinds = some t }) (p : Part t.1.2) : Part j :=
  ⟨p.1, Nat.lt_of_lt_of_le p.2 (sizeOf_tagged_le t.2)⟩

end Part

/-- The items of an array as its parts. -/
def itemParts? : (j : Json) → Option (List (Part j))
  | array items => some (items.attach.map .ofItem)
  | _ => none

/-- The items of a part, if it is an array. -/
def Part.items? {j : Json} (p : Part j) : Option (List (Part j)) :=
  p.1.itemParts?.map fun items => items.map p.trans

/-- The fields of a record as its parts, as `fields?` finds them. -/
def fieldParts? (names : List String) (j : Json) : Option (List (Option (Part j))) :=
  (j.fields? names).attach.map fun fs =>
    fs.1.attach.map fun f => f.1.attach.map (.ofField fs f)

/-- The kind of a record that names its kind, and the fields that `names` lists for that kind. -/
def taggedParts? (nested : Bool) (kinds : List String) (names : String → List String) (j : Json) :
    Option (String × List (Option (Part j))) :=
  (j.tagged? nested kinds).attach.bind fun t =>
    (t.1.2.fieldParts? (names t.1.1)).map fun fs => (t.1.1, fs.map (·.map (.ofTagged t)))

end ActorScript.Json
