/-
  What seeding the defaults makes of a store.

  The saved values of a host are the entries of a store (`Host.Stores`).  Seeding goes through the
  saved variables with a default and looks at the value that the host reads for each.  A value
  cannot tell whether there is no entry or one that holds `absent`, so an entry that holds `absent`
  is overwritten, too (`Variable.seeded`).

  In a script that was read from a text no two variables share a name, and then no two of them have
  the same entry: each entry is seeded by the one variable that is saved in it, or by none
  (`seedSaved_seeds`).  If the host refuses to store a default, seeding stops there.
-/
import Mathlib.Data.List.Nodup
import ActorScript.Proofs.Naming
import ActorScript.Proofs.Operation
import ActorScript.Actor
import ActorScript.Recording

namespace ActorScript

variable {σ : Type}

/-! ## Names are declared once -/

namespace Parser

variable {finish : Location} {script script' : Script} {ts : List Token}

theorem nodup_constant {r : Shorter ts} (h : constant finish script ts = .ok (script', r))
    (hs : script.takenNames.Nodup) : script'.takenNames.Nodup := by
  rw [constant] at h
  obtain ⟨r₁, -, h⟩ := bind_eq_ok h
  obtain ⟨⟨name, r₂⟩, -, h⟩ := bind_eq_ok h
  obtain ⟨⟨⟩, hname, h⟩ := bind_eq_ok h
  obtain ⟨r₃, -, h⟩ := bind_eq_ok h
  obtain ⟨⟨value, r₄⟩, -, h⟩ := bind_eq_ok h
  obtain ⟨r₅, -, h⟩ := bind_eq_ok h
  cases h
  rw [Script.takenNames, List.map_append, List.append_assoc]
  exact List.nodup_middle.mpr (List.nodup_cons.mpr ⟨checkUnique_eq_ok.mp hname, hs⟩)

theorem nodup_variableDeclaration {r : Shorter ts}
    (h : variableDeclaration finish script ts = .ok (script', r))
    (hs : script.takenNames.Nodup) : script'.takenNames.Nodup := by
  rw [variableDeclaration] at h
  obtain ⟨r₁, -, h⟩ := bind_eq_ok h
  obtain ⟨⟨name, r₂⟩, -, h⟩ := bind_eq_ok h
  obtain ⟨⟨⟩, hname, h⟩ := bind_eq_ok h
  obtain ⟨⟨initial, r₃⟩, -, h⟩ := bind_eq_ok h
  obtain ⟨r₄, -, h⟩ := bind_eq_ok h
  cases h
  rw [Script.takenNames, List.map_append, ← List.append_assoc]
  exact List.nodup_append_comm.mpr (List.nodup_cons.mpr ⟨checkUnique_eq_ok.mp hname, hs⟩)

theorem takenNames_stateDeclaration {r : Shorter ts}
    (h : stateDeclaration finish script ts = .ok (script', r)) :
    script'.takenNames = script.takenNames := by
  rw [stateDeclaration] at h
  obtain ⟨r₁, -, h⟩ := bind_eq_ok h
  obtain ⟨⟨name, r₂⟩, -, h⟩ := bind_eq_ok h
  simp only at h
  split at h
  · cases h
  · obtain ⟨r₃, -, h⟩ := bind_eq_ok h
    obtain ⟨⟨condition, r₄⟩, -, h⟩ := bind_eq_ok h
    obtain ⟨r₅, -, h⟩ := bind_eq_ok h
    obtain ⟨r₆, -, h⟩ := bind_eq_ok h
    obtain ⟨⟨found, chunk, r₇⟩, -, h⟩ := bind_eq_ok h
    cases h
    rfl

theorem nodup_declaration {r : Shorter ts} (h : declaration finish script ts = .ok (script', r))
    (hs : script.takenNames.Nodup) : script'.takenNames.Nodup := by
  rw [declaration] at h
  split at h
  · exact nodup_constant h hs
  · exact nodup_variableDeclaration h hs
  · exact nodup_variableDeclaration h hs
  · rwa [takenNames_stateDeclaration h]
  · cases h

theorem nodup_declarations (finish : Location) (script : Script) (ts : List Token)
    {script' : Script} (h : declarations finish script ts = .ok script')
    (hs : script.takenNames.Nodup) : script'.takenNames.Nodup := by
  rw [declarations] at h
  split at h
  · cases h
    exact hs
  · obtain ⟨⟨script₁, r₁⟩, hfirst, h⟩ := bind_eq_ok h
    exact nodup_declarations finish script₁ r₁.1 h (nodup_declaration hfirst hs)
termination_by ts.length
decreasing_by exact Shorter.length_lt _

end Parser

namespace Script

variable {script : Script}

/-- **A script that was read from a text** gives no two constants or variables one name. -/
theorem nodup_takenNames_of_parse {source : String} (h : parse source = .ok script) :
    script.takenNames.Nodup := by
  rw [parse] at h
  obtain ⟨ts, -, h⟩ := Parser.bind_eq_ok h
  exact Parser.nodup_declarations _ _ _ h List.nodup_nil

theorem nodup_names_of_takenNames (h : script.takenNames.Nodup) :
    (script.vars.map (·.name)).Nodup := (List.nodup_append.mp h).2.1

/-- No constant hides a variable. -/
theorem constant?_eq_none (h : script.takenNames.Nodup) {x : Variable} (hx : x ∈ script.vars) :
    script.constant? x.name = none := by
  have hname : x.name ∉ script.constants.map (·.name) := fun hc =>
    (List.nodup_append.mp h).2.2 _ hc _ (List.mem_map_of_mem hx) rfl
  rw [constant?, Option.map_eq_none_iff, List.find?_eq_none]
  intro c hc heq
  exact hname (List.mem_map.mpr ⟨c, hc, beq_iff_eq.mp heq⟩)

/-- And no variable hides another one. -/
theorem declared?_eq_some (h : script.takenNames.Nodup) {x : Variable} (hx : x ∈ script.vars) :
    script.declared? x.name = some x := by
  cases hy : script.declared? x.name with
  | none => exact absurd (List.find?_eq_none.mp hy x hx) (by simp)
  | some y =>
    rw [declared?] at hy
    have hname := List.find?_some hy
    rw [List.inj_on_of_nodup_map (nodup_names_of_takenNames h) (List.mem_of_find?_eq_some hy) hx
      (beq_iff_eq.mp hname)]

end Script

/-! ## Stores -/

/-- The saved values of the host are the entries of a store.  The value of an entry is what is read,
    and `absent` is read where there is none.  To save a value sets its entry, if the host does not
    refuse it, and nothing else changes an entry. -/
structure Host.Stores (host : Host σ) (entry : String → σ → Option Value) : Prop where
  read : ∀ key s, host.read (.saved key) s = (entry key s).getD .absent
  saved : ∀ key v s s', host.write (.saved key) v s = (.ok (), s') →
    ∀ key', entry key' s' = if key = key' then some v else entry key' s
  refused : ∀ key v s s' e, host.write (.saved key) v s = (.error e, s') →
    ∀ key', entry key' s' = entry key' s
  parameter : ∀ name w s key, entry key (host.write (.parameter name) w s).2 = entry key s
  callFunction : ∀ f vs s key, entry key (host.callFunction f vs s).2 = entry key s
  callValue : ∀ f vs s key, entry key (host.callValue f vs s).2 = entry key s
  observe : ∀ step s key, entry key (host.observe step s) = entry key s

/-- **The host of an actor** has the entries of the store that all actors share. -/
theorem Actor.stores_host (around : Builtin.Surroundings) :
    (Actor.host around).Stores fun key x => x.2.get? key where
  read _ _ := rfl
  saved key v := by
    rintro s _ ⟨⟩ key'
    exact SaveStore.get?_set s.2 key key' v
  refused key v := by
    rintro s _ e ⟨⟩
  parameter _ _ _ _ := rfl
  callFunction _ _ _ _ := rfl
  callValue _ _ _ _ := rfl
  observe _ _ _ := rfl

namespace Recording

theorem write_recordingHost (refused : List String) (slot : Slot) (v : Value) (s : Storage) :
    (recordingHost refused).write slot v s = if refused.contains (slotKey slot) then
      (.error (.saveStore "write refused"), s.note (.store slot v))
    else (.ok (), (s.note (.store slot v)).set slot v) := rfl

/-- The recording host has entries, too, also where it refuses to store. -/
theorem stores_recordingHost (refused : List String) :
    (recordingHost refused).Stores fun key s => s.saved.get? key where
  read _ _ := rfl
  saved key v s s' h key' := by
    rw [write_recordingHost] at h
    split at h
    · cases h
    · cases h
      exact Dict.get?_insert s.saved key key' v
  refused key v s s' e h key' := by
    rw [write_recordingHost] at h
    split at h
    · cases h
      rfl
    · cases h
  parameter name w s key := by
    rw [write_recordingHost]
    split
    · rfl
    · rfl
  callFunction _ _ _ _ := rfl
  callValue _ _ _ _ := rfl
  observe _ _ _ := rfl

end Recording

/-! ## Seeding -/

namespace Variable

/-- The entry of a saved variable after seeding, if this has been in it before: where nothing but
    `absent` is read, the default takes its place. -/
def seeded (x : Variable) (before : Option Value) : Option Value :=
  if (before.getD .absent).isAbsent then x.initial.or before else before

/-- An entry of the variable with this value outlives seeding: it is not `absent`, or there is
    nothing else to put in its place. -/
def Keeps (x : Variable) (v : Value) : Prop := v = .absent → x.initial.getD .absent = .absent

variable {x : Variable}

/-- Either the variable is not seeded at all, or it is saved and has a default. -/
theorem unseeded_or_exists (x : Variable) :
    (x.persisted → x.initial = none) ∨ x.persisted ∧ ∃ d, x.initial = some d := by
  cases x.initial with
  | none => exact .inl fun _ => rfl
  | some d =>
    by_cases hp : x.persisted
    · exact .inr ⟨hp, d, rfl⟩
    · exact .inl fun hp' => absurd hp' hp

theorem seeded_of_none (h : x.initial = none) (before : Option Value) :
    x.seeded before = before := by
  rw [seeded, h, Option.none_or, ite_self]

theorem keeps_of_ne {v : Value} (hv : v ≠ .absent) : x.Keeps v := fun h => absurd h hv

theorem seeded_none (x : Variable) : x.seeded none = x.initial := by
  rw [seeded, Option.or_none]
  rfl

/-- An entry never gets lost, but it may get another value. -/
theorem exists_seeded_some (x : Variable) (v : Value) :
    ∃ w, x.seeded (some v) = some w ∧ (w = v ↔ x.Keeps v) := by
  by_cases hv : v = .absent
  · subst hv
    cases hx : x.initial with
    | none => exact ⟨.absent, seeded_of_none hx _, by simp [Keeps, hx]⟩
    | some d => exact ⟨d, by simp [seeded, hx, Value.isAbsent], by simp [Keeps, hx]⟩
  · exact ⟨v, by simp [seeded, Value.isAbsent_iff, hv], iff_of_true rfl (keeps_of_ne hv)⟩

theorem seeded_some_iff {v : Value} : x.seeded (some v) = some v ↔ x.Keeps v := by
  obtain ⟨w, hw, hkeeps⟩ := x.exists_seeded_some v
  rw [hw, Option.some_inj, hkeeps]

/-- What is read of the variable after seeding is what was in the entry, if that is kept. -/
theorem getD_seeded_iff {v : Value} : (x.seeded (some v)).getD .absent = v ↔ x.Keeps v := by
  obtain ⟨w, hw, hkeeps⟩ := x.exists_seeded_some v
  rw [hw, Option.getD_some, hkeeps]

end Variable

/-- Different names have different entries. -/
theorem Identity.savedKey_injective {i : Identity} {v w key : String}
    (hv : i.savedKey v = .ok key) (hw : i.savedKey w = .ok key) : v = w := by
  obtain ⟨m, - | a⟩ := i
  · cases hv
  · rw [savedKey] at hv hw
    cases hv
    simpa using hw.symm

/-- The variable is saved in the entry with this key. -/
structure Variable.SavedAs (x : Variable) (i : Identity) (key : String) : Prop where
  persisted : x.persisted
  savedKey : i.savedKey x.name = .ok key

/-- What seeding these variables makes of the entries: those of saved ones are seeded, and all
    others stay as they are. -/
structure Seeds (entry : String → σ → Option Value) (i : Identity) (vars : List Variable)
    (s s' : σ) : Prop where
  saved : ∀ x ∈ vars, ∀ key, x.SavedAs i key → entry key s' = x.seeded (entry key s)
  others : ∀ key, (∀ x ∈ vars, ¬ x.SavedAs i key) → entry key s' = entry key s

namespace Seeds

variable {entry : String → σ → Option Value} {i : Identity} {x : Variable} {vars : List Variable}
  {s s₁ s' : σ} {key : String} {v : Value}

theorem nil (h : ∀ key, entry key s' = entry key s) : Seeds entry i [] s s' where
  saved _ hx := nomatch hx
  others key _ := h key

/-- A variable that is not saved, or has no default, changes nothing. -/
theorem single_of_eq (hx : x.persisted → x.initial = none) : Seeds entry i [x] s s where
  saved y hy key hkey := by
    obtain rfl := List.mem_singleton.mp hy
    rw [Variable.seeded_of_none (hx hkey.persisted)]
  others _ _ := rfl

theorem single (hkey : x.SavedAs i key) (hx : entry key s' = x.seeded (entry key s))
    (hothers : ∀ key', key' ≠ key → entry key' s' = entry key' s) : Seeds entry i [x] s s' where
  saved y hy key' hkey' := by
    obtain rfl := List.mem_singleton.mp hy
    obtain rfl := Except.ok.inj (hkey.savedKey.symm.trans hkey'.savedKey)
    exact hx
  others key' hkey' := hothers key' fun heq => hkey' x List.mem_cons_self (heq ▸ hkey)

/-- If the first variable is seeded, and then the others, all are. -/
theorem cons (hnodup : ((x :: vars).map (·.name)).Nodup) (hx : Seeds entry i [x] s s₁)
    (hvars : Seeds entry i vars s₁ s') : Seeds entry i (x :: vars) s s' where
  saved y hy key hkey := by
    obtain ⟨hname, -⟩ := List.nodup_cons.mp hnodup
    -- the variable and the others have different entries
    have hapart : ∀ z ∈ vars, z.SavedAs i key → ¬ x.SavedAs i key := fun z hz hzkey hxkey =>
      hname (List.mem_map.mpr
        ⟨z, hz, Identity.savedKey_injective hzkey.savedKey hxkey.savedKey⟩)
    rcases List.mem_cons.mp hy with rfl | hyvars
    · rw [hvars.others key fun z hz hzkey => hapart z hz hzkey hkey]
      exact hx.saved y List.mem_cons_self key hkey
    · have hothers : ∀ z ∈ [x], ¬ z.SavedAs i key := fun z hz hzkey =>
        hapart y hyvars hkey (List.mem_singleton.mp hz ▸ hzkey)
      rw [hvars.saved y hyvars key hkey, hx.others key hothers]
  others key hkey := by
    rw [hvars.others key fun y hy => hkey y (List.mem_cons_of_mem _ hy),
      hx.others key fun y hy => hkey y (List.mem_cons.mpr (.inl (List.mem_singleton.mp hy)))]

/-- An entry is seeded by a variable, or no variable is saved in it and it stays as it is. -/
theorem seeded_or_same (h : Seeds entry i vars s s') (key : String) :
    (∃ x ∈ vars, x.SavedAs i key ∧ entry key s' = x.seeded (entry key s)) ∨
      entry key s' = entry key s := by
  by_cases hx : ∃ x ∈ vars, x.SavedAs i key
  · obtain ⟨x, hx, hkey⟩ := hx
    exact .inl ⟨x, hx, hkey, h.saved x hx key hkey⟩
  · exact .inr (h.others key fun x hxvars hkey => hx ⟨x, hxvars, hkey⟩)

/-- **An entry that is there** stays as it is, exactly if the variable that is saved in it, if
    there is one, keeps its value. -/
theorem eq_some_iff (h : Seeds entry i vars s s') (hv : entry key s = some v) :
    entry key s' = some v ↔ ∀ x ∈ vars, x.SavedAs i key → x.Keeps v := by
  constructor
  · intro hkept x hx hkey
    rw [h.saved x hx key hkey, hv] at hkept
    exact Variable.seeded_some_iff.mp hkept
  · intro hkeeps
    rcases h.seeded_or_same key with ⟨x, hx, hkey, hseeded⟩ | hsame
    · rw [hseeded, hv]
      exact Variable.seeded_some_iff.mpr (hkeeps x hx hkey)
    · rw [hsame, hv]

/-- **Where there is no entry**, the default of a variable is put, and nothing else is. -/
theorem eq_some_iff_of_none (h : Seeds entry i vars s s') (hnone : entry key s = none) :
    entry key s' = some v ↔ ∃ x ∈ vars, x.SavedAs i key ∧ x.initial = some v := by
  constructor
  · intro hadded
    rcases h.seeded_or_same key with ⟨x, hx, hkey, hseeded⟩ | hsame
    · rw [hseeded, hnone, Variable.seeded_none] at hadded
      exact ⟨x, hx, hkey, hadded⟩
    · rw [hsame, hnone] at hadded
      cases hadded
  · rintro ⟨x, hx, hkey, hinitial⟩
    rw [h.saved x hx key hkey, hnone, Variable.seeded_none, hinitial]

end Seeds

namespace Machine

variable {host : Host σ} {entry : String → σ → Option Value} {i : Identity}

theorem seedSaved_cons (host : Host σ) (i : Identity) (x : Variable) (vars : List Variable) :
    seedSaved i host (x :: vars) = (seedSaved i host [x] >>= fun _ => seedSaved i host vars) := by
  rw [seedSaved, seedSaved]
  split
  · split
    · rw [bind_assoc]
      refine congrArg _ (funext fun key => ?_)
      refine Eq.trans ?_ (bind_assoc _ _ _).symm
      rfl
    · simp only [seedSaved, pure_bind]
  · simp only [seedSaved, pure_bind]

/-- One saved variable with a default: it is stored where nothing but `absent` is read. -/
theorem seedSaved_single_eq (host : Host σ) {x : Variable} {d : Value} {key : String}
    (hd : x.initial = some d) (hkey : x.SavedAs i key) (s : σ) :
    seedSaved i host [x] s =
      if (host.read (.saved key) s).isAbsent then host.write (.saved key) d s else (.ok (), s) := by
  simp only [seedSaved, hkey.persisted, hd, hkey.savedKey, if_true]
  have hpure : ∀ (a : Action σ Unit) (s : σ), (a >>= fun _ => pure ()) s = a s := fun a s => by
    rw [bind_pure_unit]
  rw [Action.bind_apply_ok (Action.lift_apply (.ok key) s)]
  exact hpure _ s

/-- A variable that is not saved, or has no default, is passed over. -/
theorem seedSaved_single_of_none (host : Host σ) {x : Variable}
    (hx : x.persisted → x.initial = none) (s : σ) : seedSaved i host [x] s = (.ok (), s) := by
  rw [seedSaved]
  split
  · rename_i hp
    rw [hx hp]
    rfl
  · rfl

/-- **One variable** is seeded, or it is refused and nothing changes. -/
theorem seedSaved_single (h : host.Stores entry) (x : Variable) {s s' : σ} {r : Except Error Unit}
    (hr : seedSaved i host [x] s = (r, s')) :
    Seeds entry i [x] s s' ∨ r ≠ .ok () ∧ ∀ key, entry key s' = entry key s := by
  rcases x.unseeded_or_exists with hx | ⟨hp, d, hd⟩
  · rw [seedSaved_single_of_none host hx] at hr
    cases hr
    exact .inl (.single_of_eq hx)
  · cases hkey : i.savedKey x.name with
    | error e =>
      simp only [seedSaved, hp, hd, hkey, if_true] at hr
      cases hr
      exact .inr ⟨nofun, fun _ => rfl⟩
    | ok key =>
      rw [seedSaved_single_eq host hd ⟨hp, hkey⟩, h.read] at hr
      split at hr
      · rename_i habsent
        cases r with
        | error e => exact .inr ⟨nofun, h.refused key d s s' e hr⟩
        | ok =>
          have hset := h.saved key d s s' hr
          refine .inl (.single ⟨hp, hkey⟩ ?_ fun key' hne => ?_)
          · rw [hset, if_pos rfl, Variable.seeded, if_pos habsent, hd]
            rfl
          · rw [hset, if_neg hne.symm]
      · rename_i hpresent
        cases hr
        refine .inl (.single ⟨hp, hkey⟩ ?_ fun _ _ => rfl)
        rw [Variable.seeded, if_neg hpresent]

/-- **Seeding** goes on from one variable to the next, and if a default is refused, it stops in
    front of that variable. -/
theorem seedSaved_seeds (h : host.Stores entry) {vars : List Variable}
    (hnodup : (vars.map (·.name)).Nodup) {s s' : σ} {r : Except Error Unit}
    (hr : seedSaved i host vars s = (r, s')) :
    ∃ done, done <+: vars ∧ (r = .ok () → done = vars) ∧ Seeds entry i done s s' := by
  induction vars generalizing s with
  | nil =>
    cases hr
    exact ⟨[], List.prefix_refl _, fun _ => rfl, .nil fun _ => rfl⟩
  | cons x vars ih =>
    obtain ⟨-, hrest⟩ := List.nodup_cons.mp hnodup
    rw [seedSaved_cons, Action.bind_apply] at hr
    rcases h₁ : seedSaved i host [x] s with ⟨err | ⟨⟨⟩⟩, s₁⟩
    · -- the variable is refused, and those behind it are not even looked at
      rw [h₁] at hr
      cases hr
      rcases seedSaved_single h x h₁ with hx | ⟨-, hsame⟩
      · exact ⟨[x], List.prefix_append [x] vars, nofun, hx⟩
      · exact ⟨[], List.nil_prefix, nofun, .nil hsame⟩
    · rw [h₁] at hr
      obtain ⟨done, hfront, hall, hdone⟩ := ih hrest hr
      rcases seedSaved_single h x h₁ with hx | ⟨hne, -⟩
      · have hnames := ((List.prefix_cons_inj x).mpr hfront).map (·.name)
        refine ⟨x :: done, (List.prefix_cons_inj x).mpr hfront, fun hok => ?_,
          hx.cons (hnodup.sublist hnames.sublist) hdone⟩
        rw [hall hok]
      · exact absurd rfl hne

/-- Seeding succeeds if the actor has a name and the host stores what it is given. -/
theorem seedSaved_eq_ok (hname : i.actorName.isSome)
    (hwrite : ∀ key v s, (host.write (.saved key) v s).1 = .ok ()) (vars : List Variable) (s : σ) :
    (seedSaved i host vars s).1 = .ok () := by
  induction vars generalizing s with
  | nil => rfl
  | cons x vars ih =>
    have hfirst : (seedSaved i host [x] s).1 = .ok () := by
      rcases x.unseeded_or_exists with hx | ⟨hp, d, hd⟩
      · rw [seedSaved_single_of_none host hx]
      · obtain ⟨actor, hactor⟩ := Option.isSome_iff_exists.mp hname
        have hkey : i.savedKey x.name = .ok (i.mapName ++ "." ++ actor ++ "." ++ x.name) := by
          rw [Identity.savedKey, hactor]
        rw [seedSaved_single_eq host hd ⟨hp, hkey⟩]
        split
        · exact hwrite _ d s
        · rfl
    rw [seedSaved_cons, Action.bind_apply_ok (Prod.ext hfirst rfl)]
    exact ih _

end Machine

end ActorScript
