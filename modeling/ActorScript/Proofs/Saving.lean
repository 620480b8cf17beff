/-
  What is saved stays saved.

  A store that is kept in a file has a past since it was opened: values have been set, it has been
  written, and the disk has changed elsewhere (`Deed`).  A past is a list with the latest deed
  first.  As long as nobody else writes the file (`Alone`), a store that is not dirty is the one
  that would be opened now; a dirty one has all values that were ever set, and becomes clean only by
  writing them (`keeps_faith`).

  Behind this is that the text of a store says all about its values: each is read back from its
  document (`ofJson?_toJson`), and the document from its text.
-/
import Mathlib
import ActorScript.Proofs.Reread
import ActorScript.Proofs.Written
import ActorScript.SaveStore

namespace ActorScript

/-! ## Values and dictionaries as documents -/

namespace Value

theorem int64OfJson?_toInt (n : Int64) : int64OfJson? (.int n.toInt) = some n := by
  have hrange : InRange n.toInt := by
    have hlow := n.le_toInt
    have hhigh := n.toInt_lt
    rw [InRange, intBound]
    omega
  rw [int64OfJson?, Json.int?, Option.bind_eq_bind, Option.bind_some, if_pos hrange,
    Int64.ofInt_toInt]
  rfl

theorem ofJson?_toJson (v : Value) : ofJson? false v.toJson = some v := by
  cases v with
  | int n => exact congrArg (Option.map Value.int) (int64OfJson?_toInt n)
  | orientation o => cases o <;> rfl
  | bool b => rfl
  | string s => rfl
  | absent => rfl

theorem exact_toJson (v : Value) : v.toJson.Exact := by
  cases v with
  | int n =>
    have := n.le_toInt
    have := n.toInt_lt
    refine ⟨trivial, ⟨?_, ?_⟩, trivial⟩
    · omega
    · omega
  | bool b => exact ⟨trivial, trivial, trivial⟩
  | string s => exact ⟨trivial, trivial, trivial⟩
  | orientation o => exact ⟨trivial, trivial, trivial⟩
  | absent => exact ⟨trivial, trivial⟩

end Value

namespace Dict

variable {α : Type}

theorem get?_insertAll (d : Dict α) {l : List (String × α)}
    (hl : l.Pairwise fun a b => a.1 < b.1) (k : String) :
    (d.insertAll l).get? k = (find? k l).or (d.get? k) := by
  induction l generalizing d with
  | nil => rfl
  | cons p l ih =>
    obtain ⟨hfirst, hl⟩ := List.pairwise_cons.mp hl
    rw [insertAll, List.foldl_cons, ← insertAll, ih _ hl, get?_insert, find?]
    split
    · rename_i hk
      subst hk
      have hnone : find? p.1 l = none :=
        find?_eq_none fun q hq heq => String.lt_irrefl _ (heq ▸ hfirst q hq)
      rw [hnone, Option.none_or, Option.some_or]
    · rfl

/-- A dictionary is made of its entries. -/
theorem ofList_entries (d : Dict α) : ofList d.entries = d := by
  refine ext_get? fun k => ?_
  rw [ofList, get?_insertAll empty d.sorted, get?_empty, Option.or_none]
  rfl

end Dict

namespace SaveStore

theorem exact_toJson (values : Dict Value) : (toJson values).Exact := by
  suffices hall : ∀ l : List (String × Value),
      Json.ExactMembers (l.map fun p => (p.1, p.2.toJson)) from hall values.entries
  intro l
  induction l with
  | nil => trivial
  | cons p l ih => exact ⟨p.2.exact_toJson, ih⟩

/-- **Saved values** are read back from their document. -/
theorem ofJson?_toJson (values : Dict Value) : ofJson? (toJson values) = some values := by
  have hentries : ∀ l : List (String × Value),
      (l.map fun p => (p.1, p.2.toJson)).mapM
        (fun m => (Value.ofJson? false m.2).map (m.1, ·)) = some l := by
    intro l
    induction l with
    | nil => rfl
    | cons p l ih =>
      rw [List.map_cons, List.mapM_cons, ih, Value.ofJson?_toJson]
      rfl
  rw [ofJson?, toJson, Json.members?, Option.bind_eq_bind, Option.bind_some, hentries]
  exact congrArg some values.ofList_entries

/-! ## The past of a store -/

/-- What is done with a store, or happens around it.  Looking a value up changes nothing. -/
inductive Deed
  | set (key : String) (v : Value)
  | flush
  /-- The disk changes; this is how it is from now on. -/
  | elsewhere (d : Disk)

/-- The store and the disk after a deed; writing the store need not succeed. -/
def Deed.apply : Deed → SaveStore × Disk → SaveStore × Disk
  | set key v, (s, d) => (s.set key v, d)
  | flush, x => (SaveStore.flush x).2
  | elsewhere d, (s, _) => (s, d)

/-- A store and its disk after some deeds, the latest of which comes first. -/
def after (x : SaveStore × Disk) : List Deed → SaveStore × Disk
  | [] => x
  | deed :: deeds => deed.apply (after x deeds)

/-- Nobody but the store has written to a path: whatever else has changed, what is read from the
    path has stayed the same. -/
def Alone (path : String) (x : SaveStore × Disk) : List Deed → Prop
  | [] => True
  | .elsewhere d :: deeds =>
    d.readText path = (after x deeds).2.readText path ∧ Alone path x deeds
  | _ :: deeds => Alone path x deeds

/-- The value that was set last under a key. -/
def lastSet? (key : String) : List Deed → Option Value
  | [] => none
  | .set k v :: deeds => if k = key then some v else lastSet? key deeds
  | _ :: deeds => lastSet? key deeds

variable {path : String} {s : SaveStore} {d d' : Disk}

/-! ## Opening and writing -/

theorem load_congr (h : d'.readText path = d.readText path) : load d' path = load d path := by
  rw [load, load, h]

/-- A store that has just been opened is clean. -/
theorem file_of_load (h : load d path = .ok s) : s.file = some ⟨path, false⟩ := by
  rw [load] at h
  split at h
  · cases h
    rfl
  · cases h
  · split at h
    · cases h
      rfl
    · cases h

/-- The text of a store opens as that store. -/
theorem load_of_readText {values : Dict Value}
    (h : d.readText path = .ok (toJson values).pretty) :
    load d path = .ok { values, file := some { path } } := by
  have hread : (Json.parse? (toJson values).pretty).bind ofJson? = some values := by
    rw [Json.parse?_pretty (exact_toJson values), Option.bind_some, ofJson?_toJson]
  rw [load, h]
  simp only [hread]

/-- A clean store is not written. -/
theorem flush_of_clean (h : s.file = some ⟨path, false⟩) : flush (s, d) = (.ok (), s, d) := by
  rw [flush, h]

/-- A dirty store is written as a whole and is clean then, or else it stays as it is. -/
theorem flush_of_dirty (h : s.file = some ⟨path, true⟩) :
    (∃ e d', flush (s, d) = (.error e, s, d')) ∨
      ∃ d', d'.readText path = .ok (toJson s.values).pretty ∧
        flush (s, d) = (.ok (), { s with file := some { path } }, d') := by
  simp only [flush, h]
  split
  · exact .inl ⟨_, _, rfl⟩
  · split
    · exact .inr ⟨_, Disk.readText_write? ‹_›, rfl⟩
    · exact .inl ⟨_, _, rfl⟩

/-- Writing changes no value. -/
theorem values_flush (x : SaveStore × Disk) : (flush x).2.1.values = x.1.values := by
  obtain ⟨s, d⟩ := x
  rcases hfile : s.file with _ | ⟨path, _ | _⟩
  · rw [flush, hfile]
  · rw [flush_of_clean hfile]
  · rcases flush_of_dirty (d := d) hfile with ⟨e, d', heq⟩ | ⟨d', -, heq⟩
    · rw [heq]
    · rw [heq]

/-- The store is kept at a path, and unless it is dirty, it is what would be opened there now. -/
structure Faithful (path : String) (x : SaveStore × Disk) : Prop where
  file : ∃ dirty, x.1.file = some ⟨path, dirty⟩
  clean : x.1.isDirty = false → load x.2 path = .ok x.1

theorem faithful_of_load (h : load d path = .ok s) : Faithful path (s, d) :=
  ⟨⟨false, file_of_load h⟩, fun _ => h⟩

theorem Faithful.set (h : Faithful path (s, d)) (key : String) (v : Value) :
    Faithful path (s.set key v, d) := by
  rw [SaveStore.set]
  split
  · exact h
  · obtain ⟨dirty, hfile⟩ := h.file
    have hfile' : s.file.map (fun f => { f with dirty := true }) = some ⟨path, true⟩ := by
      rw [show s.file = some ⟨path, dirty⟩ from hfile]
      rfl
    refine ⟨⟨true, hfile'⟩, fun hclean => ?_⟩
    rw [isDirty, hfile'] at hclean
    cases hclean

theorem Faithful.flush (h : Faithful path (s, d)) : Faithful path (SaveStore.flush (s, d)).2 := by
  obtain ⟨dirty, hfile⟩ := h.file
  cases dirty with
  | false =>
    rw [flush_of_clean hfile]
    exact h
  | true =>
    rcases flush_of_dirty (d := d) hfile with ⟨e, d', heq⟩ | ⟨d', hread, heq⟩
    · rw [heq]
      refine ⟨⟨true, hfile⟩, fun hclean => ?_⟩
      rw [isDirty, hfile] at hclean
      cases hclean
    · rw [heq]
      exact ⟨⟨false, rfl⟩, fun _ => load_of_readText hread⟩

theorem faithful_after {x : SaveStore × Disk} (h : Faithful path x) {deeds : List Deed}
    (halone : Alone path x deeds) : Faithful path (after x deeds) := by
  induction deeds with
  | nil => exact h
  | cons deed deeds ih =>
    cases deed with
    | set key v => exact (ih halone).set key v
    | flush => exact (ih halone).flush
    | elsewhere d =>
      -- the disk may be another one, but the same is read from the path
      obtain ⟨hread, halone⟩ := halone
      obtain ⟨hfile, hclean⟩ := ih halone
      exact ⟨hfile, fun hdirty => (load_congr hread).trans (hclean hdirty)⟩

theorem get?_after (x : SaveStore × Disk) (deeds : List Deed) (key : String) :
    (after x deeds).1.get? key = (lastSet? key deeds).or (x.1.get? key) := by
  induction deeds with
  | nil => rfl
  | cons deed deeds ih =>
    cases deed with
    | set k v =>
      rw [after, Deed.apply, get?_set, lastSet?, ih]
      split <;> rfl
    | flush => exact (congrArg (Dict.get? · key) (values_flush _)).trans ih
    | elsewhere d => exact ih

/-- **A store keeps faith with its file.**  After any deeds since it was opened, with nobody else
    writing the file, it has under every key what was set last, or else what was there when it was
    opened; unless it is dirty, it is what would be opened now; and writing it either fails and
    leaves it as it is, dirty, or makes it clean with all its values in the file. -/
theorem keeps_faith {s₀ : SaveStore} (hload : load d path = .ok s₀) {deeds : List Deed}
    (halone : Alone path (s₀, d) deeds) {x : SaveStore × Disk} (hx : x = after (s₀, d) deeds) :
    (∀ key, x.1.get? key = (lastSet? key deeds).or (s₀.get? key)) ∧
    (x.1.isDirty = false → load x.2 path = .ok x.1) ∧
    (∀ e, (flush x).1 = .error e → (flush x).2.1 = x.1 ∧ x.1.isDirty = true) ∧
    ((flush x).1 = .ok () → (flush x).2.1.isDirty = false ∧
      load (flush x).2.2 path = .ok (flush x).2.1 ∧
      ∀ key, (flush x).2.1.get? key = x.1.get? key) := by
  have hfaithful : Faithful path x := by
    rw [hx]
    exact faithful_after (faithful_of_load hload) halone
  obtain ⟨s, d'⟩ := x
  refine ⟨fun key => ?_, hfaithful.clean, ?_⟩
  · rw [hx]
    exact get?_after (s₀, d) deeds key
  · obtain ⟨dirty, hfile⟩ := hfaithful.file
    -- a clean store is not written at all; a dirty one is, and this may fail
    cases dirty with
    | false =>
      have hclean : s.isDirty = false := by
        rw [isDirty, hfile]
        rfl
      rw [flush_of_clean hfile]
      refine ⟨fun e he => ?_, fun _ => ⟨hclean, hfaithful.clean hclean, fun _ => rfl⟩⟩
      cases he
    | true =>
      have hdirty : s.isDirty = true := by
        rw [isDirty, hfile]
        rfl
      rcases flush_of_dirty (d := d') hfile with ⟨e, d'', heq⟩ | ⟨d'', hread, heq⟩
      · rw [heq]
        refine ⟨fun _ _ => ⟨rfl, hdirty⟩, fun hok => ?_⟩
        cases hok
      · rw [heq]
        have hload' := load_of_readText hread
        refine ⟨fun e he => ?_, fun _ => ⟨rfl, hload', fun _ => rfl⟩⟩
        cases he

/-- Where there is a place for the file, a dirty store can be written. -/
theorem isDirty_flush (hfile : s.file = some ⟨path, true⟩) {folder place : List String}
    (hfolder : d.createDirectory (Path.parent path) = (d', some folder))
    (hplace : d'.target? path = some place) : (flush (s, d)).2.1.isDirty = false := by
  simp only [flush, hfile, hfolder, Disk.write?, hplace, Option.map_some]
  rfl

theorem target?_slot : Disk.target? {} "slot" = some ["slot"] := by
  have hpieces : Path.pieces "slot" = ["slot"] := by cbv
  have hname : (!Path.isUsable "slot" || Path.stays "slot" || "slot" = "..") = false := by cbv
  have hbase : Disk.base {} "slot" = [] := ite_self []
  rw [Disk.target?, hpieces]
  simp only [List.getLast?_singleton, Option.bind_eq_bind, Option.bind_some, hname, hbase]
  rfl

/-- A new store is told two things and then written. -/
def firstSave : List Deed :=
  [.flush, .set "town.Zoé.mood" .absent, .set "town.Zoé.said" (.string "\"Hi\"\n")]

theorem keeps_faith_firstSave : ∃ s, load (after ({ file := some { path := "slot" } }, {})
    firstSave).2 "slot" = .ok s ∧ s.get? "town.Zoé.mood" = some .absent := by
  have hload : load {} "slot" = .ok { file := some { path := "slot" } } := by cbv
  have hclean : (after ({ file := some { path := "slot" } }, {}) firstSave).1.isDirty = false := by
    have hfolder : Disk.createDirectory {} (Path.parent "slot") = ({}, some []) := by cbv
    exact isDirty_flush rfl hfolder target?_slot
  have halone : Alone "slot" ({ file := some { path := "slot" } }, {}) firstSave := trivial
  obtain ⟨hvalues, hfile, -⟩ := keeps_faith hload halone rfl
  exact ⟨_, hfile hclean, hvalues "town.Zoé.mood"⟩

end SaveStore

end ActorScript
