/-
  Variants of a JSON document.

  A record says the same if its members stand in another order, if there are members with names
  unknown to whoever reads it, and if a member that may be left out is left out where it is null.
  `Json.Variant` allows all of this at once, at every depth of a document.

  A reader asks for members by name.  So what it needs to know about a variant of an object is how
  such a question is answered (`Variant.member`, `Variant.lacks`): by a variant of the member that
  was written, or, if the member may be left out, by nothing.  Neither the order nor the unknown
  members matter, since `single?` only counts how often a name occurs (`single?_congr`).
-/
import Mathlib.Data.List.Perm.Basic
import ActorScript.Script.Json

namespace ActorScript.Json

/-! ## Asking for a member -/

theorem valuesOf_append (name : String) (ms ns : List (String × Json)) :
    valuesOf name (ms ++ ns) = valuesOf name ms ++ valuesOf name ns := by
  rw [valuesOf, List.filter_append, List.map_append]
  rfl

theorem valuesOf_cons (name : String) (m : String × Json) (ms : List (String × Json)) :
    valuesOf name (m :: ms) = if m.1 = name then m.2 :: valuesOf name ms else valuesOf name ms := by
  rw [valuesOf, List.filter_cons]
  by_cases h : m.1 = name
  · simp [h, valuesOf]
  · simp [h, valuesOf]

theorem valuesOf_eq_nil {name : String} {ms : List (String × Json)} :
    valuesOf name ms = [] ↔ name ∉ ms.map (·.1) := by
  rw [valuesOf, List.map_eq_nil_iff, List.filter_eq_nil_iff]
  constructor
  · intro h hmem
    obtain ⟨m, hm, rfl⟩ := List.mem_map.mp hmem
    exact h m hm (beq_self_eq_true m.1)
  · intro h m hm heq
    exact h (List.mem_map.mpr ⟨m, hm, beq_iff_eq.mp heq⟩)

theorem single?_of_nil {name : String} {ms : List (String × Json)} (h : valuesOf name ms = []) :
    single? name ms = some none := by
  rw [single?, h]

theorem single?_of_singleton {name : String} {ms : List (String × Json)} {j : Json}
    (h : valuesOf name ms = [j]) : single? name ms = some (some j) := by
  rw [single?, h]

/-- **The order of the members does not matter**, nor do members with other names. -/
theorem single?_congr {name : String} {ms ns : List (String × Json)}
    (h : (valuesOf name ms).Perm (valuesOf name ns)) : single? name ms = single? name ns := by
  rw [single?, single?]
  match hms : valuesOf name ms, hns : valuesOf name ns with
  | [], _ =>
    rw [hms] at h
    rw [← hns, h.symm.eq_nil]
  | [j], _ =>
    rw [hms] at h
    rw [← hns, List.perm_singleton.mp h.symm]
  | i :: j :: is, ks =>
    rw [hms, hns] at h
    match ks, h.length_eq with
    | _ :: _ :: _, _ => rfl

/-! ## Variants -/

/-- The name means something to whoever reads an object with the members `ms`: it is the name of one
    of them; or all of them map events to something, and every name has to be that of an event; or
    the object has nothing but a kind, and could have a value. -/
def Known (ms : List (String × Json)) (name : String) : Prop :=
  name ∈ ms.map (·.1) ∨ (∀ m ∈ ms, (Event.ofName? m.1).isSome) ∨
    (ms.map (·.1) = ["kind"] ∧ name = "value")

instance (ms : List (String × Json)) (name : String) : Decidable (Known ms name) :=
  inferInstanceAs (Decidable (_ ∨ _ ∨ _))

/-- The names of the members that may be left out where they are null. -/
def optionalNames : List String := ["default", "else_block"]

mutual

/-- **`j` is a variant of `i`.** -/
inductive Variant : Json → Json → Prop
  | same (j : Json) : Variant j j
  | array {is js : List Json} (h : List.Forall₂ Variant is js) : Variant (.array is) (.array js)
  /-- The members that are kept and others that are unknown, in any order. -/
  | object {ms kept added ns : List (String × Json)} (h : VariantMembers ms kept)
    (hadded : ∀ m ∈ added, ¬ Known ms m.1) (hperm : (kept ++ added).Perm ns) :
    Variant (.object ms) (.object ns)

/-- The members that are kept of some, with variants of their values. -/
inductive VariantMembers : List (String × Json) → List (String × Json) → Prop
  | nil : VariantMembers [] []
  | keep {name : String} {i j : Json} {ms ns : List (String × Json)} (h : Variant i j)
    (hs : VariantMembers ms ns) : VariantMembers ((name, i) :: ms) ((name, j) :: ns)
  | leave {name : String} {ms ns : List (String × Json)} (h : name ∈ optionalNames)
    (hs : VariantMembers ms ns) : VariantMembers ((name, .null) :: ms) ns

end

variable {i j : Json} {ms ns kept : List (String × Json)} {name : String}

theorem VariantMembers.refl (ms : List (String × Json)) : VariantMembers ms ms := by
  induction ms with
  | nil => exact .nil
  | cons m ms ih => exact .keep (.same m.2) ih

/-- The members may stand from back to front. -/
theorem Variant.reversed (h : VariantMembers ms kept) (added : List (String × Json))
    (hadded : ∀ m ∈ added, ¬ Known ms m.1) :
    Variant (.object ms) (.object (kept ++ added).reverse) :=
  .object h hadded (List.reverse_perm _).symm

theorem VariantMembers.names_subset (h : VariantMembers ms kept) :
    kept.map (·.1) ⊆ ms.map (·.1) := by
  induction ms generalizing kept with
  | nil =>
    cases h
    exact List.Subset.refl _
  | cons m ms ih =>
    cases h with
    | keep hv hs => exact List.cons_subset_cons _ (ih hs)
    | leave hopt hs => exact List.Subset.trans (ih hs) (List.subset_cons_self _ _)

/-- Members that are neither left out nor have other variants. -/
theorem VariantMembers.eq_of_fixed (h : VariantMembers ms kept)
    (hfixed : ∀ m ∈ ms, m.1 ∉ optionalNames ∧ ∀ j, Variant m.2 j → j = m.2) : kept = ms := by
  induction ms generalizing kept with
  | nil =>
    cases h
    rfl
  | cons m ms ih =>
    obtain ⟨hnot, hvalue⟩ := hfixed m List.mem_cons_self
    cases h with
    | keep hv hs => rw [hvalue _ hv, ih hs fun x hx => hfixed x (List.mem_cons_of_mem _ hx)]
    | leave hopt hs => exact absurd hopt hnot

/-- What is answered to the name of a member of which variants are kept. -/
theorem VariantMembers.member (h : VariantMembers ms kept) (hnodup : (ms.map (·.1)).Nodup)
    (hmem : (name, i) ∈ ms) :
    (∃ j, valuesOf name kept = [j] ∧ Variant i j) ∨
      (name ∈ optionalNames ∧ i = .null ∧ valuesOf name kept = []) := by
  induction ms generalizing kept with
  | nil => cases hmem
  | cons m ms ih =>
    obtain ⟨hnot, hnodup'⟩ := List.nodup_cons.mp hnodup
    by_cases hm : m = (name, i)
    · subst hm
      -- no other member has the name
      have hrest : ∀ {ns}, VariantMembers ms ns → valuesOf name ns = [] := fun hs =>
        valuesOf_eq_nil.mpr fun hin => hnot (hs.names_subset hin)
      cases h with
      | @keep _ _ j _ ns hv hs =>
        refine .inl ⟨j, ?_, hv⟩
        rw [valuesOf_cons, if_pos rfl, hrest hs]
      | leave hopt hs => exact .inr ⟨hopt, rfl, hrest hs⟩
    · have hmem' : (name, i) ∈ ms := (List.mem_cons.mp hmem).resolve_left (Ne.symm hm)
      have hne : m.1 ≠ name := by
        rintro rfl
        exact hnot (List.mem_map.mpr ⟨_, hmem', rfl⟩)
      cases h with
      | keep hv hs =>
        rw [valuesOf_cons, if_neg hne]
        exact ih hs hnodup' hmem'
      | leave hopt hs => exact ih hs hnodup' hmem'

/-- A variant of an object is an object, and is asked like the members that are kept. -/
theorem Variant.object_inv (h : Variant (.object ms) j) :
    ∃ ns kept, j = .object ns ∧ VariantMembers ms kept ∧
      (∀ name, Known ms name → (valuesOf name ns).Perm (valuesOf name kept)) ∧
      ((∀ m ∈ ms, (Event.ofName? m.1).isSome) → ns.Perm kept) := by
  cases h with
  | same => exact ⟨ms, ms, rfl, .refl ms, fun _ _ => .refl _, fun _ => .refl _⟩
  | @object _ kept added ns hs hadded hperm =>
    refine ⟨ns, kept, rfl, hs, fun name hknown => ?_, fun hevents => ?_⟩
    · have hnone : valuesOf name added = [] := by
        refine valuesOf_eq_nil.mpr fun hin => ?_
        obtain ⟨m, hm, rfl⟩ := List.mem_map.mp hin
        exact hadded m hm hknown
      have hvalues : (valuesOf name ns).Perm (valuesOf name (kept ++ added)) :=
        (hperm.symm.filter _).map _
      rwa [valuesOf_append, hnone, List.append_nil] at hvalues
    · have hnil : added = [] :=
        List.eq_nil_iff_forall_not_mem.mpr fun m hm => hadded m hm (.inr (.inl hevents))
      rw [hnil, List.append_nil] at hperm
      exact hperm.symm

/-! ## What a variant of a record answers -/

/-- The members `ns` answer like those of a variant of a record with the members `ms`. -/
structure Answers (ms ns : List (String × Json)) : Prop where
  member : ∀ name i, (name, i) ∈ ms →
    (∃ j, single? name ns = some (some j) ∧ Variant i j) ∨
      (name ∈ optionalNames ∧ i = .null ∧ single? name ns = some none)
  lacks : ∀ name, Known ms name → name ∉ ms.map (·.1) → single? name ns = some none

theorem Variant.answers (h : Variant (.object ms) j) (hnodup : (ms.map (·.1)).Nodup) :
    ∃ ns, j = .object ns ∧ Answers ms ns := by
  obtain ⟨ns, kept, rfl, hs, hvalues, -⟩ := h.object_inv
  refine ⟨ns, rfl, fun name i hmem => ?_, fun name hknown hnot => ?_⟩
  · have hknown : Known ms name := .inl (List.mem_map.mpr ⟨_, hmem, rfl⟩)
    rw [single?_congr (hvalues name hknown)]
    rcases hs.member hnodup hmem with ⟨j, hj, hv⟩ | ⟨hopt, hnull, hnil⟩
    · exact .inl ⟨j, single?_of_singleton hj, hv⟩
    · exact .inr ⟨hopt, hnull, single?_of_nil hnil⟩
  · rw [single?_congr (hvalues name hknown)]
    exact single?_of_nil (valuesOf_eq_nil.mpr fun hin => hnot (hs.names_subset hin))

namespace Answers

/-- The answer to the name of a member that may be left out. -/
theorem optional (h : Answers ms ns) (name : String) (hmem : ms.lookup name = some i) :
    (∃ j, single? name ns = some (some j) ∧ Variant i j) ∨
      (name ∈ optionalNames ∧ i = .null ∧ single? name ns = some none) := by
  obtain ⟨before, after, rfl, -⟩ := List.lookup_eq_some_iff.mp hmem
  exact h.member name i (List.mem_append_right _ List.mem_cons_self)

/-- The answer to the name of any other member. -/
theorem required (h : Answers ms ns) (name : String) (hmem : ms.lookup name = some i)
    (hreq : name ∉ optionalNames) : ∃ j, single? name ns = some (some j) ∧ Variant i j :=
  (h.optional name hmem).resolve_right fun hopt => hreq hopt.1

/-- A record that names its kind is asked for the kind first. -/
theorem tagged? {kind : String} (h : Answers ms ns) (hkind : ms.lookup "kind" = some (.string kind))
    (nested : Bool) (kinds : List String) : (Json.object ns).tagged? nested kinds =
      some (kind, .object (ns.filter (·.1 != "kind"))) := by
  obtain ⟨k, hk, hv⟩ := h.required "kind" hkind (by decide)
  cases hv
  simp [Json.tagged?, hk, kindName?]

end Answers

/-- Without its kind, a record answers as before. -/
theorem single?_untagged (hne : name ≠ "kind") (ns : List (String × Json)) :
    single? name (ns.filter (·.1 != "kind")) = single? name ns := by
  have hvalues : valuesOf name (ns.filter (·.1 != "kind")) = valuesOf name ns := by
    rw [valuesOf, valuesOf, List.filter_filter]
    congr 1
    refine List.filter_congr fun m _ => ?_
    by_cases hm : m.1 = name
    · simp [hm, hne]
    · simp [hm]
  rw [single?, single?, hvalues]

theorem fields?_untagged {names : List String} (hnot : "kind" ∉ names)
    (ns : List (String × Json)) :
    (Json.object (ns.filter (·.1 != "kind"))).fields? names = (Json.object ns).fields? names := by
  rw [fields?, fields?]
  induction names with
  | nil => rfl
  | cons name names ih =>
    obtain ⟨hne, hnot'⟩ := not_or.mp (mt List.mem_cons.mpr hnot)
    rw [List.mapM_cons, List.mapM_cons, ih hnot', single?_untagged (Ne.symm hne)]

theorem Variant.string_inv {s : String} (h : Variant (.string s) j) : j = .string s := by
  cases h
  rfl

theorem Variant.int_inv {n : Int} (h : Variant (.int n) j) : j = .int n := by
  cases h
  rfl

theorem Variant.bool_inv {b : Bool} (h : Variant (.bool b) j) : j = .bool b := by
  cases h
  rfl

theorem Variant.null_inv (h : Variant .null j) : j = .null := by
  cases h
  rfl

theorem Variant.eq_null (h : Variant i .null) : i = .null := by
  cases h
  rfl

/-- A variant of a list is a list of variants. -/
theorem Variant.array_inv {is : List Json} (h : Variant (.array is) j) :
    ∃ js, j = .array js ∧ List.Forall₂ Variant is js := by
  cases h with
  | same => exact ⟨is, rfl, List.forall₂_same.mpr fun i _ => .same i⟩
  | array h => exact ⟨_, rfl, h⟩

theorem mapM_of_variants {α : Type} {write : α → Json} {read : Json → Option α} {xs : List α}
    {js : List Json} (h : List.Forall₂ Variant (xs.map write) js)
    (hread : ∀ x ∈ xs, ∀ j, Variant (write x) j → read j = some x) : js.mapM read = some xs := by
  induction xs generalizing js with
  | nil =>
    cases h
    rfl
  | cons x xs ih =>
    cases h with
    | @cons _ j _ js hv hs =>
      rw [List.mapM_cons, hread x List.mem_cons_self j hv,
        ih hs fun y hy => hread y (List.mem_cons_of_mem x hy)]
      rfl

/-- **A list is read item by item.** -/
theorem listOf?_of_variant {α : Type} {write : α → Json} {read : Json → Option α} {xs : List α}
    (h : Variant (.array (xs.map write)) j)
    (hread : ∀ x ∈ xs, ∀ j, Variant (write x) j → read j = some x) : listOf? read j = some xs := by
  obtain ⟨js, rfl, hs⟩ := h.array_inv
  exact mapM_of_variants hs hread

/-! ## Parts -/

/-- **The parts of a record** are its fields. -/
theorem map_fieldParts? (names : List String) (j : Json) :
    (j.fieldParts? names).map (·.map (·.map (·.1))) = j.fields? names := by
  have field : ∀ (fs : { fs // j.fields? names = some fs }) (f : { f // f ∈ fs.1 }),
      (f.1.attach.map (Part.ofField fs f)).map (·.1) = f.1 := by
    intro fs f
    rw [Option.map_map]
    exact Option.attach_map_subtype_val f.1
  have record : ∀ fs : { fs // j.fields? names = some fs },
      (fs.1.attach.map fun f => f.1.attach.map (Part.ofField fs f)).map (·.map (·.1)) = fs.1 := by
    intro fs
    rw [List.map_map]
    refine Eq.trans (List.map_congr_left fun f _ => field fs f) ?_
    exact List.attach_map_subtype_val fs.1
  rw [fieldParts?, Option.map_map]
  refine Eq.trans (Option.map_congr fun fs _ => record fs) ?_
  exact Option.attach_map_subtype_val (j.fields? names)

/-- The fields of a record, one by one, where none of them may be left out. -/
theorem Answers.exists_fields (h : Answers ms ns) {fields : List (String × Json)}
    (hsub : fields ⊆ ms) (hreq : ∀ f ∈ fields, f.1 ∉ optionalNames) :
    ∃ xs : List Json, (Json.object ns).fields? (fields.map (·.1)) = some (xs.map some) ∧
      List.Forall₂ (fun f x => Variant f.2 x) fields xs := by
  induction fields with
  | nil => exact ⟨[], rfl, .nil⟩
  | cons f fields ih =>
    obtain ⟨xs, hxs, hall⟩ := ih (List.subset_of_cons_subset hsub)
      fun g hg => hreq g (List.mem_cons_of_mem f hg)
    obtain ⟨x, hx, hv⟩ := (h.member f.1 f.2 (hsub List.mem_cons_self)).resolve_right
      fun hopt => hreq f List.mem_cons_self hopt.1
    refine ⟨x :: xs, ?_, .cons hv hall⟩
    rw [fields?] at hxs ⊢
    rw [List.map_cons, List.mapM_cons, hx, hxs]
    rfl

/-- Optional parts of which every one is there. -/
theorem exists_map_some {α β : Type} {f : α → β} {os : List (Option α)} {ys : List β}
    (h : os.map (·.map f) = ys.map some) : ∃ xs : List α, os = xs.map some ∧ ys = xs.map f := by
  induction os generalizing ys with
  | nil => exact ⟨[], rfl, List.map_eq_nil_iff.mp h.symm⟩
  | cons o os ih =>
    cases ys with
    | nil => cases h
    | cons y ys =>
      obtain ⟨ho, hos⟩ := List.cons_eq_cons.mp h
      obtain ⟨x, rfl, rfl⟩ := Option.map_eq_some_iff.mp ho
      obtain ⟨xs, rfl, rfl⟩ := ih hos
      exact ⟨x :: xs, rfl, rfl⟩

/-- **The fields of a record that names its kind**, as its parts. -/
theorem Variant.exists_parts {kind : String} {fields : List (String × Json)}
    (h : Variant (.object (("kind", .string kind) :: fields)) j) (nested : Bool)
    (kinds : List String) (names : String → List String) (hnames : fields.map (·.1) = names kind)
    (hnodup : ("kind" :: names kind).Nodup) (hreq : ∀ name ∈ names kind, name ∉ optionalNames) :
    ∃ parts : List (Part j), j.taggedParts? nested kinds names = some (kind, parts.map some) ∧
      List.Forall₂ (fun f p => Variant f.2 p.1) fields parts := by
  rw [← hnames] at hnodup hreq
  obtain ⟨ns, rfl, ha⟩ := h.answers hnodup
  obtain ⟨xs, hxs, hall⟩ := ha.exists_fields (List.subset_cons_self _ fields)
    fun f hf => hreq f.1 (List.mem_map_of_mem hf)
  have ht := ha.tagged? rfl nested kinds
  have hattach : ((Json.object ns).tagged? nested kinds).attach = some ⟨_, ht⟩ := by
    simp [Option.attach_eq_some_iff, ht]
  have hfields := (fields?_untagged (List.nodup_cons.mp hnodup).1 ns).trans hxs
  rw [hnames, ← map_fieldParts?] at hfields
  obtain ⟨parts, hparts, hfs⟩ := Option.map_eq_some_iff.mp hfields
  obtain ⟨ps, rfl, rfl⟩ := exists_map_some hfs
  refine ⟨ps.map (.ofTagged ⟨_, ht⟩), ?_, ?_⟩
  · rw [taggedParts?, hattach, Option.bind_some, hparts, Option.map_some, List.map_map,
      List.map_map]
    rfl
  · rw [List.forall₂_map_right_iff] at hall ⊢
    exact hall

/-- The items of a part, each read as what it is. -/
theorem Part.exists_items {p : Part j} {items : List Json} (h : p.1 = .array items) :
    ∃ ps, p.items? = some ps ∧ ps.map (·.1) = items := by
  have hparts : p.1.itemParts?.map (·.map (·.1)) = some items := by
    rw [h, itemParts?, Option.map_some, List.map_map]
    exact congrArg some (List.attach_map_subtype_val items)
  obtain ⟨qs, hqs, hitems⟩ := Option.map_eq_some_iff.mp hparts
  refine ⟨qs.map p.trans, by rw [Part.items?, hqs, Option.map_some], ?_⟩
  rw [List.map_map, ← hitems]
  rfl

end ActorScript.Json
