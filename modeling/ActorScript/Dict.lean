/-
  Dictionaries from names to values, sorted by name.

  The entries are a list whose keys strictly increase (`sorted`), in the order of strings by
  code point.  So a key occurs at most once, the entries come out in key order, and two
  dictionaries that answer every look-up alike are equal (`Dict.ext_get?`).  One equation
  describes insertion through look-up (`Dict.get?_insert`); users of a dictionary need no other.
-/

namespace ActorScript

/-- A sorted association of names with values. -/
structure Dict (α : Type) where
  entries : List (String × α)
  sorted : entries.Pairwise (fun a b => a.1 < b.1) := by simp

namespace Dict

variable {α β : Type}

/-! ## Entry lists -/

/-- The value of the first entry with key `k`. -/
def find? (k : String) : List (String × α) → Option α
  | [] => none
  | (k', v) :: rest => if k' = k then some v else find? k rest

/-- Puts an entry at its place in a sorted list, replacing one with the same key. -/
def place (k : String) (v : α) : List (String × α) → List (String × α)
  | [] => [(k, v)]
  | (k', v') :: rest =>
    if k < k' then (k, v) :: (k', v') :: rest
    else if k' = k then (k, v) :: rest
    else (k', v') :: place k v rest

/-- Keys of a list after `place`: the old ones and the new one. -/
theorem mem_place {k : String} {v : α} {l : List (String × α)} {p : String × α}
    (h : p ∈ place k v l) : p = (k, v) ∨ p ∈ l := by
  induction l with
  | nil => simpa [place] using h
  | cons q rest ih =>
    simp only [place] at h
    split at h
    · simpa using h
    · split at h
      · rcases List.mem_cons.1 h with h | h
        · exact .inl h
        · exact .inr (List.mem_cons_of_mem _ h)
      · rcases List.mem_cons.1 h with h | h
        · exact .inr (h ▸ List.mem_cons_self)
        · exact (ih h).imp_right (List.mem_cons_of_mem _)

theorem place_sorted (k : String) (v : α) {l : List (String × α)}
    (h : l.Pairwise (fun a b => a.1 < b.1)) : (place k v l).Pairwise (fun a b => a.1 < b.1) := by
  induction l with
  | nil => simp [place]
  | cons q rest ih =>
    obtain ⟨hq, hrest⟩ := List.pairwise_cons.1 h
    simp only [place]
    split
    · rename_i hlt
      refine List.pairwise_cons.2 ⟨fun p hp => ?_, h⟩
      rcases List.mem_cons.1 hp with rfl | hp
      · exact hlt
      · exact String.lt_trans hlt (hq p hp)
    · split
      · rename_i heq
        subst heq
        exact List.pairwise_cons.2 ⟨hq, hrest⟩
      · rename_i hge hne
        refine List.pairwise_cons.2 ⟨fun p hp => ?_, ih hrest⟩
        rcases mem_place hp with rfl | hp
        · have hle : q.1 ≤ k := String.not_lt.1 hge
          refine Decidable.byContradiction fun hnot => hne ?_
          exact String.le_antisymm hle (String.not_lt.1 hnot)
        · exact hq p hp

theorem find?_place (k k' : String) (v : α) (l : List (String × α)) :
    find? k' (place k v l) = if k = k' then some v else find? k' l := by
  induction l with
  | nil => simp [place, find?]
  | cons q rest ih =>
    simp only [place]
    split
    · simp [find?]
    · split
      · rename_i heq
        by_cases h : k = k'
        · simp [find?, h]
        · have : ¬ q.1 = k' := heq ▸ h
          simp [find?, h, this]
      · rename_i hne
        by_cases h : q.1 = k'
        · have : ¬ k = k' := fun e => hne (h.trans e.symm)
          simp [find?, h, this]
        · simp [find?, h, ih]

theorem find?_eq_none {k : String} {l : List (String × α)} (h : ∀ p ∈ l, p.1 ≠ k) :
    find? k l = none := by
  induction l with
  | nil => rfl
  | cons q rest ih =>
    simp [find?, h q List.mem_cons_self, ih fun p hp => h p (List.mem_cons_of_mem _ hp)]

theorem find?_isSome_iff {k : String} {l : List (String × α)} :
    (find? k l).isSome ↔ k ∈ l.map (·.1) := by
  induction l with
  | nil => simp [find?]
  | cons q rest ih =>
    by_cases h : q.1 = k
    · simp [find?, h]
    · simp only [find?, h, if_false, ih, List.map_cons, List.mem_cons]
      exact ⟨.inr, fun | .inl e => absurd e.symm h | .inr e => e⟩

/-! ## Dictionaries -/

/-- The dictionary without entries. -/
def empty : Dict α := ⟨[], .nil⟩

instance : Inhabited (Dict α) := ⟨empty⟩

/-- The value stored under a name. -/
def get? (d : Dict α) (k : String) : Option α := find? k d.entries

/-- The dictionary in which `k` has the value `v`, whatever it had before. -/
def insert (d : Dict α) (k : String) (v : α) : Dict α :=
  ⟨place k v d.entries, place_sorted k v d.sorted⟩

/-- Whether something is stored under a name. -/
def contains (d : Dict α) (k : String) : Bool := (d.get? k).isSome

/-- The stored names, in increasing order. -/
def keys (d : Dict α) : List String := d.entries.map (·.1)

/-- The number of entries. -/
def size (d : Dict α) : Nat := d.entries.length

/-- Whether there are no entries. -/
def isEmpty (d : Dict α) : Bool := d.entries.isEmpty

/-- The entries of a list added to `d` from left to right, so that the last one for a name
    stays. -/
def insertAll (d : Dict α) (l : List (String × α)) : Dict α :=
  l.foldl (fun d p => d.insert p.1 p.2) d

/-- The dictionary of a list of entries; the last one for a name stays. -/
def ofList (l : List (String × α)) : Dict α := empty.insertAll l

@[simp] theorem get?_empty (k : String) : (empty : Dict α).get? k = none := rfl

theorem get?_insert (d : Dict α) (k k' : String) (v : α) :
    (d.insert k v).get? k' = if k = k' then some v else d.get? k' := find?_place ..

@[simp] theorem get?_insert_self (d : Dict α) (k : String) (v : α) :
    (d.insert k v).get? k = some v := by simp [get?_insert]

theorem get?_insert_ne (d : Dict α) {k k' : String} (v : α) (h : k ≠ k') :
    (d.insert k v).get? k' = d.get? k' := by simp [get?_insert, h]

theorem mem_keys {d : Dict α} {k : String} : k ∈ d.keys ↔ (d.get? k).isSome :=
  find?_isSome_iff.symm

/-- Sorted lists that answer every look-up alike are equal. -/
theorem entries_eq_of_find? : ∀ {l m : List (String × α)},
    l.Pairwise (fun a b => a.1 < b.1) → m.Pairwise (fun a b => a.1 < b.1) →
    (∀ k, find? k l = find? k m) → l = m
  | [], [], _, _, _ => rfl
  | [], q :: m, _, _, h => by simpa [find?] using h q.1
  | p :: l, [], _, _, h => by simpa [find?] using h p.1
  | (k, v) :: l, (k', v') :: m, hl, hm, h => by
    obtain ⟨hk, hl'⟩ := List.pairwise_cons.1 hl
    obtain ⟨hk', hm'⟩ := List.pairwise_cons.1 hm
    have above : ∀ {a : String} {r : List (String × α)}, (∀ p ∈ r, a < p.1) → find? a r = none :=
      fun hr => find?_eq_none fun p hp e => String.lt_irrefl _ (e ▸ hr p hp)
    have heq : k = k' := by
      refine Decidable.byContradiction fun hne => ?_
      have hne' : ¬ k' = k := fun e => hne e.symm
      have h₁ : find? k m = some v := by simpa [find?, hne'] using (h k).symm
      have h₂ : find? k' l = some v' := by simpa [find?, hne] using h k'
      have h₁ := find?_isSome_iff.1 (Option.isSome_of_eq_some h₁)
      have h₂ := find?_isSome_iff.1 (Option.isSome_of_eq_some h₂)
      obtain ⟨p, hp, rfl⟩ := List.mem_map.1 h₁
      obtain ⟨q, hq, rfl⟩ := List.mem_map.1 h₂
      exact String.lt_asymm (hk q hq) (hk' p hp)
    subst heq
    have hv : v = v' := by simpa [find?] using h k
    subst hv
    have hrest : ∀ j, find? j l = find? j m := fun j => by
      by_cases hj : k = j
      · subst hj; rw [above hk, above hk']
      · simpa [find?, hj] using h j
    exact congrArg _ (entries_eq_of_find? hl' hm' hrest)

/-- Two dictionaries that answer every look-up alike are equal. -/
theorem ext_get? {d e : Dict α} (h : ∀ k, d.get? k = e.get? k) : d = e := by
  obtain ⟨l, hl⟩ := d
  obtain ⟨m, hm⟩ := e
  have : l = m := entries_eq_of_find? hl hm h
  subst this
  rfl

instance [DecidableEq α] : DecidableEq (Dict α) := fun d e =>
  decidable_of_iff (d.entries = e.entries)
    ⟨fun h => by cases d; cases e; simp_all, fun h => h ▸ rfl⟩

instance [Repr α] : Repr (Dict α) := ⟨fun d n => reprPrec d.entries n⟩

end Dict

end ActorScript
