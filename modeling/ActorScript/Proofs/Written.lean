/-
  What has been written can be read.

  Writing a file takes nothing away from a tree but the file that was there before: whatever was at
  a place is still there, and directories are still directories (`get?_put`).  So every path still
  leads to where it led (`follow_of_staysIn`), and the path that was written leads to the new file
  (`readText_write?`).
-/
import ActorScript.Disk

namespace ActorScript

namespace FileTree

/-- Everything that is in the first tree is also in the second one, and its directories are
    directories there. -/
def StaysIn (t t' : FileTree) : Prop :=
  ∀ place x, t.get? place = some x →
    ∃ x', t'.get? place = some x' ∧ (x.isDirectory = true → x'.isDirectory = true)

theorem exists_directory {t : FileTree} (h : t.isDirectory = true) : ∃ es, t = directory es := by
  cases t with
  | file content => cases h
  | directory es => exact ⟨es, rfl⟩

/-- **Putting something where there is no directory** takes nothing away. -/
theorem staysIn_put {t : FileTree} {place : List String} (hclear : t.Clear place)
    (hplace : ∀ x, t.get? place = some x → x.isDirectory = false) (new : FileTree) :
    t.StaysIn (t.put place new) := by
  -- the other place `q` either goes down into the same entry, or is not touched at all
  induction place generalizing t with
  | nil =>
    have ht : t.isDirectory = false := hplace t rfl
    intro q x hx
    cases t with
    | directory es => cases ht
    | file content =>
      cases q with
      | nil =>
        cases hx
        exact ⟨new, by rw [put, get?], fun h => by cases h⟩
      | cons name q => cases hx
  | cons name rest ih =>
    cases t with
    | file content => exact hclear.elim
    | directory es =>
      intro q x hx
      rw [put]
      cases q with
      | nil =>
        cases hx
        exact ⟨_, by rw [get?], fun _ => rfl⟩
      | cons name' q =>
        obtain ⟨t, ht, hq⟩ := Option.bind_eq_some_iff.mp hx
        by_cases hname : name = name'
        · subst hname
          have hclear : t.Clear rest := by
            rw [Clear, ht] at hclear
            exact hclear
          have hplace : ∀ x, t.get? rest = some x → x.isDirectory = false := by
            intro y hy
            refine hplace y ?_
            rw [get?, ht]
            exact hy
          obtain ⟨x', hx', hdir⟩ := ih hclear hplace q x hq
          refine ⟨x', ?_, hdir⟩
          rw [get?, Dict.find?_place, if_pos rfl, ht]
          exact hx'
        · refine ⟨x, ?_, id⟩
          rw [get?, Dict.find?_place, if_neg hname, ht]
          exact hq

/-- No file is in the way to something in a directory. -/
theorem clear_of_directory {t x : FileTree} {place : List String} (h : t.get? place = some x)
    (hx : x.isDirectory = true) (name : String) : t.Clear (place ++ [name]) := by
  induction place generalizing t with
  | nil =>
    cases h
    obtain ⟨es, rfl⟩ := exists_directory hx
    trivial
  | cons name' place ih =>
    cases t with
    | file content => cases h
    | directory es =>
      obtain ⟨t, ht, h⟩ := Option.bind_eq_some_iff.mp h
      rw [List.cons_append, Clear, ht]
      exact ih h

/-- What contains something is a directory. -/
theorem isDirectory_of_get? {t x : FileTree} {place : List String} {name : String}
    (h : t.get? (place ++ [name]) = some x) :
    ∃ y, t.get? place = some y ∧ y.isDirectory = true := by
  induction place generalizing t with
  | nil =>
    cases t with
    | file content => cases h
    | directory es => exact ⟨_, rfl, rfl⟩
  | cons name' place ih =>
    cases t with
    | file content => cases h
    | directory es =>
      obtain ⟨t, ht, h⟩ := Option.bind_eq_some_iff.mp h
      obtain ⟨y, hy, hdir⟩ := ih h
      exact ⟨y, by rw [get?, ht]; exact hy, hdir⟩

end FileTree

namespace Disk

variable {d d' : Disk} {place : List String} {path : String}

theorem hasDirectory_iff :
    d.hasDirectory place = true ↔ ∃ x, d.root.get? place = some x ∧ x.isDirectory = true := by
  rw [hasDirectory, Option.any_eq_true]

/-- Where everything is still there, paths lead to where they led. -/
theorem follow_of_staysIn (h : d.root.StaysIn d'.root) {pieces goal : List String}
    (hfollow : d.follow place pieces = some goal) : d'.follow place pieces = some goal := by
  induction pieces generalizing place with
  | nil => exact hfollow
  | cons piece rest ih =>
    rw [follow] at hfollow ⊢
    split at hfollow
    case isFalse => cases hfollow
    case isTrue hdir =>
      obtain ⟨x, hx, hxdir⟩ := hasDirectory_iff.mp hdir
      obtain ⟨x', hx', hxdir'⟩ := h place x hx
      rw [if_pos (hasDirectory_iff.mpr ⟨x', hx', hxdir' hxdir⟩)]
      split at hfollow
      · rename_i hstays
        rw [if_pos hstays]
        exact ih hfollow
      · rename_i hstays
        rw [if_neg hstays]
        split at hfollow
        · rename_i hup
          rw [if_pos hup]
          exact ih hfollow
        · rename_i hup
          rw [if_neg hup]
          split at hfollow
          · rename_i hsome
            obtain ⟨y, hy⟩ := Option.isSome_iff_exists.mp hsome
            obtain ⟨y', hy', -⟩ := h _ y hy
            rw [if_pos (Option.isSome_of_eq_some hy')]
            exact ih hfollow
          · cases hfollow

theorem follow_append (d : Disk) (place pieces pieces' : List String) :
    d.follow place (pieces ++ pieces') = (d.follow place pieces).bind (d.follow · pieces') := by
  induction pieces generalizing place with
  | nil => rfl
  | cons piece rest ih =>
    rw [List.cons_append, follow, follow, ih, ih, ih]
    split
    · split
      · rfl
      · split
        · rfl
        · split
          · rfl
          · rfl
    · rfl

theorem fromUTF8?_toUTF8 (text : String) : String.fromUTF8? text.toUTF8 = some text :=
  dif_pos text.isValidUTF8

/-- The place of a file that can be written: the path leads to a directory with a last name that
    is a name, and there is no directory with that name. -/
structure Targets (d : Disk) (path : String) (place : List String) (name : String) : Prop where
  usable : Path.isUsable path = true
  pieces : ∃ before, Path.pieces path = before ++ [name] ∧
    d.follow (d.base path) before = some place
  moves : Path.stays name = false ∧ name ≠ ".."
  directory : d.hasDirectory place = true
  free : ∀ x, d.root.get? (place ++ [name]) = some x → x.isDirectory = false

theorem targets_of_target? {goal : List String} (h : d.target? path = some goal) :
    ∃ place name, goal = place ++ [name] ∧ d.Targets path place name := by
  rw [target?] at h
  obtain ⟨name, hname, h⟩ := Option.bind_eq_some_iff.mp h
  obtain ⟨before, hpieces⟩ := List.getLast?_eq_some_iff.mp hname
  split at h
  case isTrue => cases h
  case isFalse hok =>
    obtain ⟨place, hplace, h⟩ := Option.bind_eq_some_iff.mp h
    rw [hpieces, List.dropLast_concat] at hplace
    simp only [Bool.or_eq_true, Bool.not_eq_true', decide_eq_true_eq, not_or, Bool.not_eq_false,
      Bool.not_eq_true] at hok
    obtain ⟨⟨husable, hstays⟩, hup⟩ := hok
    split at h
    case h_1 => cases h
    case h_2 content hfile =>
      cases h
      refine ⟨place, name, rfl, husable, ⟨before, hpieces, hplace⟩, ⟨hstays, hup⟩, ?_, ?_⟩
      · exact hasDirectory_iff.mpr (FileTree.isDirectory_of_get? hfile)
      · intro x hx
        cases hfile.symm.trans hx
        rfl
    case h_3 hnone =>
      split at h
      case isTrue hdir =>
        cases h
        refine ⟨place, name, rfl, husable, ⟨before, hpieces, hplace⟩, ⟨hstays, hup⟩, hdir, ?_⟩
        intro x hx
        cases hnone.symm.trans hx
      case isFalse => cases h

/-- **What is written to a path** is what is read from it. -/
theorem readText_write? {text : String} (h : d.write? path text.toUTF8 = some d') :
    d'.readText path = .ok text := by
  obtain ⟨goal, hgoal, rfl⟩ := Option.map_eq_some_iff.mp h
  obtain ⟨place, name, rfl, ht⟩ := targets_of_target? hgoal
  obtain ⟨before, hpieces, hbefore⟩ := ht.pieces
  obtain ⟨x, hx, hdir⟩ := hasDirectory_iff.mp ht.directory
  have hclear := FileTree.clear_of_directory hx hdir name
  have hstays := FileTree.staysIn_put hclear ht.free (.file text.toUTF8)
  have hself := FileTree.get?_put_self hclear (.file text.toUTF8)
  generalize hd' : ({ d with root := d.root.put (place ++ [name]) (.file text.toUTF8) } : Disk) = d'
  have hroot : d'.root = d.root.put (place ++ [name]) (.file text.toUTF8) := by rw [← hd']
  have hbase : d'.base path = d.base path := by rw [← hd']; rfl
  rw [← hroot] at hstays hself
  -- the path leads to the directory it led to before, and from there to the new file
  have hdirectory : d'.hasDirectory place = true := by
    obtain ⟨x', hx', hdir'⟩ := hstays place x hx
    exact hasDirectory_iff.mpr ⟨x', hx', hdir' hdir⟩
  have hlast : d'.follow place [name] = some (place ++ [name]) := by
    rw [follow, if_pos hdirectory, if_neg (by simp [ht.moves.1]), if_neg ht.moves.2,
      if_pos (Option.isSome_of_eq_some hself)]
    rfl
  have hlocate : d'.locate? path = some (place ++ [name]) := by
    rw [locate?, if_pos ht.usable, hpieces, follow_append, hbase,
      follow_of_staysIn hstays hbefore]
    exact hlast
  have hshort : Path.isLong path = false := by
    have husable := ht.usable
    simp only [Path.isUsable, Path.isPassable, Bool.and_eq_true, Bool.not_eq_true'] at husable
    exact husable.1.2.1
  rw [readText, get?, hlocate]
  simp only [Option.bind_some, hself, textOf, hshort, Bool.false_eq_true, if_false,
    fromUTF8?_toUTF8]
  rfl

end Disk

end ActorScript
